import EndlessPeak.Game.World

/-!
# What a tick does

The specification of `World::AddPlayer`, `World::ProcessInput` and `World::Tick`
that later modules use instead of the definitions, and runs of the game loop.

* `addPlayer_eq_some`, `processInput_cases`: the effect of a packet.
* `tick_eq_some`: the phases of a tick.
* `World.All`: a property of all players; `all_inputPhase` and `all_forEach` say
  what the phases of a tick make of it.
* `GameRun`: runs of ticks.
-/

namespace EndlessPeak

open Lib

namespace World

variable {platform : Platform} {config : GameConfig} {dt : ℚ} {w w' : World} {id j : UInt64}

/-! ## `AddPlayer` -/

/-- The bytes of one record of the `SpawnPlayers` packet. -/
def recordBytes (platform : Platform) (player : Player) : List UInt8 :=
  beBytes 8 player.id.toNat ++ beBytes 8 (platform.doubleBits player.x).toNat ++
    beBytes 8 (platform.doubleBits player.y).toNat ++ beBytes 1 player.width.toNat ++
    beBytes 1 player.height.toNat

/-- The entries of all players but `id`. -/
def others (id : UInt64) (items : List (Sigma fun _ : UInt64 => Option Player)) : List Player :=
  items.filterMap fun item => if item.1 ≠ id then item.2 else none

theorem spawnRecord_body (packet : NetPacket) (player : Player) :
    (spawnRecord platform packet player).body =
      some (packet.body.getD [] ++ recordBytes platform player) := by
  simp [spawnRecord, recordBytes, PodType.repr, beBytes]

theorem spawnRecord_opcode (packet : NetPacket) (player : Player) :
    (spawnRecord platform packet player).getHeadOpcode = packet.getHeadOpcode := by
  simp [spawnRecord]

/-- The loop over the other players: it meets no null entry and appends their
    records in the visiting order. -/
theorem spawnOthers_eq_some (items : List (Sigma fun _ : UInt64 => Option Player))
    {packet packet' : NetPacket} (h : spawnOthers platform id packet items = some packet') :
    (∀ item ∈ items, item.1 ≠ id → item.2 ≠ none) ∧
      packet'.getHeadOpcode = packet.getHeadOpcode ∧
      packet'.body.getD [] =
        packet.body.getD [] ++ (others id items).flatMap (recordBytes platform) := by
  induction items generalizing packet with
  | nil =>
    cases h
    simp [others]
  | cons item items ih =>
    simp only [spawnOthers, List.foldlM_cons, Option.bind_eq_bind, Option.bind_eq_some_iff] at h
    obtain ⟨packet1, hitem, hrest⟩ := h
    obtain ⟨hnull, hop, hbody⟩ := ih hrest
    by_cases hid : item.1 = id
    · simp only [hid, ne_eq, not_true_eq_false, if_false, Option.some_inj] at hitem
      subst hitem
      refine ⟨?_, hop, ?_⟩
      · intro other hother hne
        rcases List.mem_cons.mp hother with rfl | hother
        · exact absurd hid hne
        · exact hnull other hother hne
      · simpa [others, hid] using hbody
    · simp only [ne_eq, hid, not_false_eq_true, if_true, Option.map_eq_some_iff] at hitem
      obtain ⟨p, hp, rfl⟩ := hitem
      refine ⟨?_, hop.trans (spawnRecord_opcode _ _), ?_⟩
      · intro other hother hne
        rcases List.mem_cons.mp hother with rfl | hother
        · simp [hp]
        · exact hnull other hother hne
      · rw [hbody, spawnRecord_body]
        simp [others, hid, hp]

theorem spawnOthers_isSome (items : List (Sigma fun _ : UInt64 => Option Player))
    (packet : NetPacket) (h : ∀ item ∈ items, item.1 ≠ id → item.2 ≠ none) :
    ∃ packet', spawnOthers platform id packet items = some packet' := by
  induction items generalizing packet with
  | nil => exact ⟨packet, rfl⟩
  | cons item items ih =>
    have htail := fun other hother => h other (List.mem_cons_of_mem item hother)
    by_cases hid : item.1 = id
    · obtain ⟨packet', hp⟩ := ih packet htail
      exact ⟨packet', by simpa [spawnOthers, hid] using hp⟩
    · obtain ⟨p, hp⟩ := Option.ne_none_iff_exists'.mp (h item List.mem_cons_self hid)
      obtain ⟨packet', hrest⟩ := ih (spawnRecord platform packet p) htail
      exact ⟨packet', by simpa [spawnOthers, hid, hp] using hrest⟩

theorem addPlayer_eq_some {player : Player} (h : w.addPlayer platform player = some w') :
    (∀ j, j ≠ player.id → w.players.lookup j ≠ some none) ∧
      w'.players = (w.store player.id player).players ∧ w'.iterations = w.iterations + 1 ∧
      w'.game.inQueue = w.game.inQueue ∧
      ∃ packet, spawnOthers platform player.id
          (spawnHeader (w.store player.id player).players.entries.length)
          (platform.iterate w.iterations (w.store player.id player).players.entries) =
            some packet ∧
        w'.game.outQueue = w.game.outQueue ++ [createPacket platform player,
          spawnPacket packet player.id, addPacket platform player] := by
  simp only [addPlayer, Option.bind_eq_bind, Option.bind_eq_some_iff, Option.some_inj] at h
  obtain ⟨packet, hspawn, rfl⟩ := h
  refine ⟨?_, rfl, rfl, rfl, packet, hspawn, by simp⟩
  intro j hj hnull
  refine (spawnOthers_eq_some _ hspawn).1 ⟨j, none⟩ ?_ hj rfl
  exact Platform.mem_iterate.mpr (by simpa [lookup_store, hj] using hnull)

theorem player?_addPlayer {player : Player} (h : w.addPlayer platform player = some w')
    (j : UInt64) : w'.player? j = if j = player.id then some player else w.player? j := by
  rw [player?, (addPlayer_eq_some h).2.1, ← player?, player?_store]

theorem addPlayer_isSome (platform : Platform) (player : Player)
    (h : ∀ j, j ≠ player.id → w.players.lookup j ≠ some none) :
    ∃ w', w.addPlayer platform player = some w' := by
  have hspawn : ∃ packet, spawnOthers platform player.id
      (spawnHeader (w.store player.id player).players.entries.length)
      (platform.iterate w.iterations (w.store player.id player).players.entries) =
        some packet := by
    apply spawnOthers_isSome _ _
    rintro ⟨j, v⟩ hitem hj rfl
    apply h j hj
    simpa [lookup_store, hj] using Platform.mem_iterate.mp hitem
  obtain ⟨packet, hspawn⟩ := hspawn
  simp only [addPlayer, pushOut_players, pushOut_iterations, store_iterations, hspawn,
    Option.bind_eq_bind, Option.bind_some]
  exact ⟨_, rfl⟩

/-! ## `ProcessInput` -/

/-- What the opcodes that steer a player do to it. -/
def command (dt : ℚ) : Opcodes → Player → Player
  | .moveLeft, player => player.setVel (-(100 * dt)) player.velY
  | .moveRight, player => player.setVel (100 * dt) player.velY
  | .jump, player =>
    if player.onGround then (player.setVel player.velX (-(400 * dt))).setOnGround false else player
  | _, player => player

@[simp] theorem command_toBox (o : Opcodes) (p : Player) : (command dt o p).toBox = p.toBox := by
  cases o <;> simp only [command, Player.setVel_toBox]
  split <;> rfl

@[simp] theorem command_id (o : Opcodes) (p : Player) : (command dt o p).id = p.id := by
  cases o <;> simp only [command, Player.setVel_id]
  split <;> rfl

/-- The opcodes that steer a player. -/
def IsCommand (o : Opcodes) : Prop := o = .moveLeft ∨ o = .moveRight ∨ o = .jump

instance (o : Opcodes) : Decidable (IsCommand o) := inferInstanceAs (Decidable (_ ∨ _ ∨ _))

theorem processInput_eq (packet : ServerPacket) :
    w.processInput platform config dt packet =
      match packet.opcode with
      | none => some (w.touch packet.id)
      | some .createPlayer => (w.touch packet.id).addPlayer platform (config.newPlayer packet.id)
      | some .removePlayer => some ((w.touch packet.id).removePlayer packet.id)
      | some o =>
        if IsCommand o then (w.touch packet.id).modifyPlayer packet.id (command dt o)
        else some (w.touch packet.id) := by
  simp only [processInput, ServerPacket.getNetPacket_eq, ServerPacket.opcode]
  rcases toOpcode packet.packet.getHeadOpcode with _ | o
  · rfl
  · cases o <;> rfl

/-- What `ProcessInput` does with a packet, when it ends. -/
theorem processInput_cases {packet : ServerPacket}
    (h : w.processInput platform config dt packet = some w') :
    (packet.opcode = some .createPlayer ∧
      (w.touch packet.id).addPlayer platform (config.newPlayer packet.id) = some w') ∨
    (packet.opcode = some .removePlayer ∧ w' = (w.touch packet.id).removePlayer packet.id) ∨
    (∃ o p, packet.opcode = some o ∧ IsCommand o ∧ w.player? packet.id = some p ∧
      w' = (w.touch packet.id).store packet.id (command dt o p)) ∨
    ((∀ o, packet.opcode = some o → o ≠ .createPlayer ∧ o ≠ .removePlayer ∧ ¬ IsCommand o) ∧
      w' = w.touch packet.id) := by
  rw [processInput_eq] at h
  rcases ho : packet.opcode with _ | o
  · rw [ho] at h
    cases h
    exact .inr (.inr (.inr ⟨by simp, rfl⟩))
  · rw [ho] at h
    cases o with
    | createPlayer => exact .inl ⟨rfl, h⟩
    | removePlayer =>
      cases h
      exact .inr (.inl ⟨rfl, rfl⟩)
    | moveLeft | moveRight | jump =>
      simp only [IsCommand, modifyPlayer, player?_touch, reduceCtorEq, or_true, true_or, if_true,
        Option.map_eq_some_iff] at h
      obtain ⟨p, hp, rfl⟩ := h
      exact .inr (.inr (.inl ⟨_, p, rfl, by decide, hp, rfl⟩))
    | spawnPlayers | movePlayer | addPlayer =>
      cases h
      refine .inr (.inr (.inr ⟨?_, rfl⟩))
      rintro o ⟨⟩
      decide

/-- `ProcessInput` fails exactly if it steers a player that is not there, or adds a
    player next to a null entry. -/
theorem processInput_eq_none {packet : ServerPacket} :
    w.processInput platform config dt packet = none ↔
      (∃ o, packet.opcode = some o ∧ IsCommand o ∧ w.player? packet.id = none) ∨
      (packet.opcode = some .createPlayer ∧
        ∃ j, j ≠ packet.id ∧ w.players.lookup j = some none) := by
  rw [processInput_eq]
  rcases ho : packet.opcode with _ | o
  · simp
  cases o with
  | createPlayer =>
    simp only [Option.some_inj, exists_eq_left', IsCommand, reduceCtorEq, or_self, false_and,
      false_or, true_and]
    constructor
    · intro hnone
      by_contra hcon
      push Not at hcon
      have hothers : ∀ j, j ≠ packet.id → (w.touch packet.id).players.lookup j ≠ some none := by
        intro j hj
        rw [lookup_touch, if_neg hj]
        exact hcon j hj
      obtain ⟨w', hw'⟩ := addPlayer_isSome platform (config.newPlayer packet.id)
        hothers
      simp [hw'] at hnone
    · rintro ⟨j, hj, hnull⟩
      rw [Option.eq_none_iff_forall_ne_some]
      intro w' hw'
      apply (addPlayer_eq_some hw').1 j hj
      rw [lookup_touch, if_neg hj]
      exact hnull
  | removePlayer => simp [IsCommand]
  | moveLeft | moveRight | jump => simp [IsCommand, modifyPlayer]
  | spawnPlayers | movePlayer | addPlayer => simp [IsCommand]

/-! ## Ticks -/

/-- The phases of a tick that ends. -/
theorem tick_eq_some {net net' : Subsystem} :
    w.tick platform config dt net = some (w', net') ↔
      ∃ w1 w2, w.inputPhase platform config dt net.inQueue = some w1 ∧
        w1.forEach platform (update platform config dt) = some w2 ∧
        w' = { w2 with game := { w2.game with outQueue := [] } } ∧
        net' = { inQueue := w.game.inQueue, outQueue := net.outQueue ++ w2.game.outQueue } := by
  simp only [tick, Option.bind_eq_bind, Option.bind_eq_some_iff, Option.some_inj, Prod.mk.injEq]
  constructor
  · rintro ⟨w1, h1, w2, h2, rfl, rfl⟩
    exact ⟨w1, w2, h1, h2, rfl, rfl⟩
  · rintro ⟨w1, w2, h1, h2, rfl, rfl⟩
    exact ⟨w1, h1, w2, h2, rfl, rfl⟩

theorem inputPhase_eq_some {inputs : List ServerPacket} :
    w.inputPhase platform config dt inputs = some w' ↔
      ∃ w1, ({ w with game := { w.game with inQueue := inputs } } : World).forEach platform
          (fun player => (player.setVel 0 player.velY, [])) = some w1 ∧
        inputs.foldlM (processInput platform config dt)
          { w1 with game := { w1.game with inQueue := [] } } = some w' := by
  simp only [inputPhase, Option.bind_eq_bind, Option.bind_eq_some_iff]
  constructor
  · rintro ⟨w1, h1, h2⟩
    rw [forEach_inQueue h1] at h2
    exact ⟨w1, h1, h2⟩
  · rintro ⟨w1, h1, h2⟩
    refine ⟨w1, h1, ?_⟩
    rw [forEach_inQueue h1]
    exact h2

theorem processInput_inQueue {packet : ServerPacket}
    (h : w.processInput platform config dt packet = some w') :
    w'.game.inQueue = w.game.inQueue := by
  rcases processInput_cases h with ⟨-, hadd⟩ | ⟨-, rfl⟩ | ⟨o, p, -, -, -, rfl⟩ | ⟨-, rfl⟩
  · simpa using (addPlayer_eq_some hadd).2.2.2.1
  · simp [removePlayer]
  · simp
  · simp

/-- A tick drains the queue it has swapped in. -/
theorem tick_inQueue {net net' : Subsystem}
    (h : w.tick platform config dt net = some (w', net')) :
    w'.game.inQueue = [] ∧ net'.inQueue = w.game.inQueue := by
  obtain ⟨w1, w2, hin, hloop, rfl, rfl⟩ := tick_eq_some.mp h
  obtain ⟨w0, -, hfold⟩ := inputPhase_eq_some.mp hin
  refine ⟨?_, rfl⟩
  rw [forEach_inQueue hloop]
  exact (run_iff_foldlM.mpr hfold).invariant (I := fun w => w.game.inQueue = []) rfl
    fun _ _ _ hv hp => (processInput_inQueue hp).trans hv

/-! ## Properties of single players -/

section Forall

variable {P : UInt64 → Player → Prop} {packet : ServerPacket} {inputs : List ServerPacket}

/-- The property `P` holds of every key and the player stored for it. -/
def All (P : UInt64 → Player → Prop) (w : World) : Prop :=
  ∀ id p, w.player? id = some p → P id p

theorem all_of_entries (h : ∀ item ∈ w.players.entries, ∀ p, item.2 = some p → P item.1 p) :
    w.All P := by
  intro id p hp
  exact h ⟨id, some p⟩ (AList.mem_lookup_iff.mp (player?_eq_some.mp hp)) p rfl

theorem all_store {p : Player} (hall : w.All P) (hp : P id p) : (w.store id p).All P := by
  intro j q hq
  rw [player?_store] at hq
  split_ifs at hq with hj
  · cases hq
    exact hj ▸ hp
  · exact hall j q hq

theorem all_addPlayer {player : Player} (hall : w.All P) (hp : P player.id player)
    (h : w.addPlayer platform player = some w') : w'.All P := by
  intro j q hq
  rw [player?_addPlayer h] at hq
  split_ifs at hq with hj
  · cases hq
    exact hj ▸ hp
  · exact hall j q hq

theorem all_removePlayer (hall : w.All P) (id : UInt64) : (w.removePlayer id).All P := by
  intro j q hq
  rw [player?_removePlayer] at hq
  split_ifs at hq
  exact hall j q hq

/-- Processing a packet keeps a property that new players have and that no command
    breaks. -/
theorem all_processInput (hnew : ∀ id, P id (config.newPlayer id))
    (hcommand : ∀ id o p, P id p → P id (command dt o p)) (hall : w.All P)
    (h : w.processInput platform config dt packet = some w') : w'.All P := by
  have htouch : (w.touch packet.id).All P := by
    intro j q hq
    exact hall j q (by simpa using hq)
  rcases processInput_cases h with ⟨-, hadd⟩ | ⟨-, rfl⟩ | ⟨o, p, -, -, hp, rfl⟩ | ⟨-, rfl⟩
  · exact all_addPlayer htouch (hnew packet.id) hadd
  · exact all_removePlayer htouch packet.id
  · exact all_store htouch (hcommand _ o p (hall _ p hp))
  · exact htouch

/-- A loop over the players takes `P` to `Q` if its body does. -/
theorem all_forEach {Q : UInt64 → Player → Prop} {body : Player → Player × List ServerPacket}
    (hbody : ∀ id p, w.player? id = some p → P id p → Q id (body p).1) (hall : w.All P)
    (h : w.forEach platform body = some w') : w'.All Q := by
  intro id q hq
  rw [player?_forEach h, Option.map_eq_some_iff] at hq
  obtain ⟨p, hp, rfl⟩ := hq
  exact hbody id p hp (hall id p hp)

/-- The input phase of a tick keeps a property that the velocity reset and the
    commands do not break and that new players have. -/
theorem all_inputPhase (hreset : ∀ id p, P id p → P id (p.setVel 0 p.velY))
    (hnew : ∀ id, P id (config.newPlayer id))
    (hcommand : ∀ id o p, P id p → P id (command dt o p)) (hall : w.All P)
    (h : w.inputPhase platform config dt inputs = some w') : w'.All P := by
  obtain ⟨w1, hloop, hfold⟩ := inputPhase_eq_some.mp h
  have h0 : ({ w with game := { w.game with inQueue := inputs } } : World).All P := hall
  have h1 : w1.All P := all_forEach (fun id p _ hp => hreset id p hp) h0 hloop
  apply (run_iff_foldlM.mpr hfold).invariant (I := All P) h1
  intro v packet v' hv hstep
  exact all_processInput hnew hcommand hv hstep

end Forall

end World

/-! ## Runs of the game loop -/

/-- A turn of the game loop: the packets that have come in since the last one, and
    the measured time. -/
structure Turn where
  dt : ℚ
  inputs : List ServerPacket

/-- `World::Tick` as the sessions and the game loop drive it. The out queue of the
    network is left to grow: it is the log of the packets pushed. -/
def gameStep (platform : Platform) (config : GameConfig) (s : World × Subsystem) (turn : Turn) :
    Option (World × Subsystem) :=
  s.1.tick platform config turn.dt { s.2 with inQueue := s.2.inQueue ++ turn.inputs }

/-- The turns `turns` can be run from the start of the program without a null
    dereference, and lead to the last argument. -/
def GameRun (platform : Platform) (config : GameConfig) : List Turn → World × Subsystem → Prop :=
  Run (stepRel (gameStep platform config)) ({}, {})

/-- A turn whose input phase leaves only players with the property `P`. -/
def GuardedTurn (platform : Platform) (config : GameConfig) (P : ℚ → Player → Prop)
    (s : World × Subsystem) (turn : Turn) (s' : World × Subsystem) : Prop :=
  gameStep platform config s turn = some s' ∧
    ∀ w, s.1.inputPhase platform config turn.dt (s.2.inQueue ++ turn.inputs) = some w →
      w.All fun _ => P turn.dt

/-- A turn that checks its guard. -/
def guardedStep (platform : Platform) (config : GameConfig) (P : ℚ → Player → Prop)
    [∀ dt p, Decidable (P dt p)] (s : World × Subsystem) (turn : Turn) :
    Option (World × Subsystem) :=
  if (s.1.inputPhase platform config turn.dt (s.2.inQueue ++ turn.inputs)).all (fun w =>
      w.players.entries.all fun item => item.2.all fun p => decide (P turn.dt p)) then
    gameStep platform config s turn
  else none

theorem guardedTurn_of_step {platform : Platform} {config : GameConfig} {P : ℚ → Player → Prop}
    [∀ dt p, Decidable (P dt p)] {s s' : World × Subsystem} {turn : Turn}
    (h : guardedStep platform config P s turn = some s') :
    GuardedTurn platform config P s turn s' := by
  unfold guardedStep at h
  split_ifs at h with hcheck
  refine ⟨h, ?_⟩
  intro w hw
  apply World.all_of_entries
  intro item hitem p hp
  rw [hw, Option.all_some, List.all_eq_true] at hcheck
  have hitem := hcheck item hitem
  rw [hp, Option.all_some] at hitem
  exact of_decide_eq_true hitem

/-- Between ticks both inbound queues are empty. -/
theorem game_inQueue {platform : Platform} {config : GameConfig} {turns : List Turn}
    {s : World × Subsystem} (h : GameRun platform config turns s) :
    s.1.game.inQueue = [] ∧ s.2.inQueue = [] := by
  refine h.invariant (I := fun s => s.1.game.inQueue = [] ∧ s.2.inQueue = []) ⟨rfl, rfl⟩ ?_
  rintro ⟨w, net⟩ turn ⟨w', net'⟩ ⟨hgame, -⟩ hstep
  obtain ⟨hgame', hnet'⟩ := World.tick_inQueue hstep
  exact ⟨hgame', hnet'.trans hgame⟩

end EndlessPeak
