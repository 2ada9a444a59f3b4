import EndlessPeak.Game.Collision
import EndlessPeak.Lib.Run

/-!
# `World`: the state the game loop advances

Model of `game/world/world.cpp`. The player map is read with `operator[]`, which
inserts a null pointer for an unknown key, and the pointers are dereferenced
without a check: the functions return `none` where the program dereferences a
null pointer. Logging is left out.

* `moveX_eq`, `exists_moveY_eq`: what each phase of `MovePlayer` does to the player.
* `forEach_eq_some`, `forEach_isSome`: what a loop over the players does, and that
  it fails only on a null entry.
-/

namespace EndlessPeak

open Lib

/-! ## State -/

/-- `GameSubsystem` and `NetworkSubsystem`: a pair of queues, head first. -/
structure Subsystem where
  inQueue : List ServerPacket := []
  outQueue : List ServerPacket := []

/-- `class World`; `iterations` counts the loops over `players_` so far. -/
structure World where
  players : PlayerMap := ∅
  iterations : ℕ := 0
  game : Subsystem := {}

namespace World

/-- `game_subsystem_->out_queue_.Push`. -/
def pushOut (w : World) (packets : List ServerPacket) : World :=
  { w with game := { w.game with outQueue := w.game.outQueue ++ packets } }

/-- `players_[id]`: the world after the access; an unknown id gets a null entry. -/
def touch (w : World) (id : UInt64) : World :=
  match w.players.lookup id with
  | some _ => w
  | none => { w with players := w.players.insert id none }

/-- The object that the entry of `id` points to. -/
def player? (w : World) (id : UInt64) : Option Player := (w.players.lookup id).join

/-- The object that the entry of `id` points to is set to `player`. -/
def store (w : World) (id : UInt64) (player : Player) : World :=
  { w with players := w.players.insert id (some player) }

/-- Calls through the pointer stored for `id`. -/
def modifyPlayer (w : World) (id : UInt64) (f : Player → Player) : Option World :=
  (w.player? id).map fun player => w.store id (f player)

/-- One round of a loop over the players: the body sets the object it is given
    and pushes packets. -/
def visit (body : Player → Player × List ServerPacket) (w : World)
    (item : Sigma fun _ : UInt64 => Option Player) : Option World :=
  (w.player? item.1).map fun player => (w.store item.1 (body player).1).pushOut (body player).2

/-- A loop `for (auto item : players_)` whose body calls through `item.second`. -/
def forEach (platform : Platform) (body : Player → Player × List ServerPacket) (w : World) :
    Option World :=
  (platform.iterate w.iterations w.players.entries).foldlM (visit body)
    { w with iterations := w.iterations + 1 }

end World

/-! ## Moving a player -/

/-- The X axis phase of `World::MovePlayer`: the local `vel_x` after it, and the
    player. -/
def moveX (platform : Platform) (config : GameConfig) (player : Player) (velX velY : ℚ) :
    ℚ × Player :=
  if velX ≠ 0 then
    let swept := config.sweep platform player.toBox velX 0
    let velX := velX * swept.entryTime
    let player := player.move velX 0
    (velX, if swept.hit then player.setVel 0 velY else player)
  else (velX, player)

/-- The Y axis phase of `World::MovePlayer`. -/
def moveY (platform : Platform) (config : GameConfig) (player : Player) (velX velY : ℚ) :
    Player :=
  if velY ≠ 0 then
    let swept := config.sweep platform player.toBox 0 velY
    let velY := velY * swept.entryTime
    let player := (player.move 0 velY).setOnGround false
    if swept.hit then
      -- the velocity tested here is already scaled by the entry time
      (if 0 ≤ velY then player.setOnGround true else player).setVel velX 0
    else player
  else player

/-- `World::MovePlayer`. -/
def movePlayer (platform : Platform) (config : GameConfig) (player : Player) : Player :=
  let velX := player.velX
  let velY := player.velY
  let (velX, player) := moveX platform config player velX velY
  moveY platform config player velX velY

/-- The gravity of `World::Update`, 9.8. -/
def gravity : ℚ := 49 / 5

/-- The player that `World::Update` passes to `MovePlayer`. -/
def applyGravity (dt : ℚ) (player : Player) : Player :=
  player.setVel player.velX (player.velY + gravity * dt)

/-- The packet that `World::Update` pushes. -/
def movePacket (platform : Platform) (player : Player) : ServerPacket where
  packet := movePlayerPacket player.id (platform.doubleBits player.x) (platform.doubleBits player.y)
  id := player.id

/-- `World::Update`. -/
def update (platform : Platform) (config : GameConfig) (dt : ℚ) (player : Player) :
    Player × List ServerPacket :=
  let player := movePlayer platform config (applyGravity dt player)
  (player, [movePacket platform player])

/-! ## Players coming and going -/

/-- One record of the `SpawnPlayers` packet. -/
def spawnRecord (platform : Platform) (packet : NetPacket) (player : Player) : NetPacket :=
  packet <<< player.id <<< platform.doubleBits player.x <<< platform.doubleBits player.y <<<
    player.width <<< player.height

/-- The loop of `AddPlayer` that writes the record of every other player. -/
def spawnOthers (platform : Platform) (id : UInt64) (packet : NetPacket)
    (entries : List (Sigma fun _ : UInt64 => Option Player)) : Option NetPacket :=
  entries.foldlM (fun packet elem =>
    if elem.1 ≠ id then elem.2.map (spawnRecord platform packet) else some packet) packet

/-- The packet `AddPlayer` sends to the new player's client. -/
def createPacket (platform : Platform) (player : Player) : ServerPacket where
  packet := createPlayerPacket player.id (platform.doubleBits player.x)
    (platform.doubleBits player.y) player.width player.height
  id := player.id
  type := .rpc

/-- The packet `AddPlayer` sends to the other clients. -/
def addPacket (platform : Platform) (player : Player) : ServerPacket where
  packet := addPlayerPacket player.id (platform.doubleBits player.x)
    (platform.doubleBits player.y) player.width player.height
  id := player.id
  type := .rpcOthers

/-- The `SpawnPlayers` packet before its records: the opcode and `size() - 1`. -/
def spawnHeader (size : ℕ) : NetPacket :=
  ({} : NetPacket).setHeadOpcode (toUInt16 .spawnPlayers) <<< UInt64.ofNat (size - 1)

/-- The `SpawnPlayers` packet as it is pushed. -/
def spawnPacket (packet : NetPacket) (id : UInt64) : ServerPacket where
  packet := packet.move.1
  id := id
  type := .rpc

/-- `World::AddPlayer`. -/
def World.addPlayer (platform : Platform) (w : World) (player : Player) : Option World := do
  let w := w.store player.id player
  let w := w.pushOut [createPacket platform player]
  let packet ← spawnOthers platform player.id (spawnHeader w.players.entries.length)
    (platform.iterate w.iterations w.players.entries)
  let w := { w with iterations := w.iterations + 1 }
  let w := w.pushOut [spawnPacket packet player.id]
  some (w.pushOut [addPacket platform player])

/-- `World::RemovePlayer`. -/
def World.removePlayer (w : World) (id : UInt64) : World :=
  { w with players := w.players.erase id }.pushOut [{ packet := removePlayerPacket id, id := id }]

/-- The player that `World::ProcessInput` creates. -/
def GameConfig.newPlayer (config : GameConfig) (id : UInt64) : Player :=
  { config.spawnBox with id := id, velX := 0, velY := 0, onGround := false }

/-! ## Ticks -/

/-- `World::ProcessInput`. -/
def World.processInput (platform : Platform) (config : GameConfig) (dt : ℚ) (w : World)
    (packet : ServerPacket) : Option World :=
  let w := w.touch packet.id
  let netPacket := packet.getNetPacket
  let opcode := netPacket.getHeadOpcode
  let speed := 100 * dt
  let jumpForce := 400 * dt
  match toOpcode opcode with
  | some .createPlayer => w.addPlayer platform (config.newPlayer packet.id)
  | some .removePlayer => some (w.removePlayer packet.id)
  | some .moveLeft => w.modifyPlayer packet.id fun player => player.setVel (-speed) player.velY
  | some .moveRight => w.modifyPlayer packet.id fun player => player.setVel speed player.velY
  | some .jump => w.modifyPlayer packet.id fun player =>
      if player.onGround then (player.setVel player.velX (-jumpForce)).setOnGround false
      else player
  | _ => some w

/-- `World::Tick` up to the comment "Update physics": the queues are swapped, the
    horizontal velocities are reset and the inbound packets are processed. -/
def World.inputPhase (platform : Platform) (config : GameConfig) (dt : ℚ) (w : World)
    (inputs : List ServerPacket) : Option World := do
  let w := { w with game := { w.game with inQueue := inputs } }
  let w ← w.forEach platform fun player => (player.setVel 0 player.velY, [])
  -- `ProcessInput` leaves the inbound queue alone, so it is drained at once
  w.game.inQueue.foldlM (World.processInput platform config dt)
    { w with game := { w.game with inQueue := [] } }

/-- `World::Tick`, on the world and the network subsystem. -/
def World.tick (platform : Platform) (config : GameConfig) (dt : ℚ) (w : World)
    (net : Subsystem) : Option (World × Subsystem) := do
  let swapped := w.game.inQueue
  let w ← w.inputPhase platform config dt net.inQueue
  let w ← w.forEach platform (update platform config dt)
  some ({ w with game := { w.game with outQueue := [] } },
    { inQueue := swapped, outQueue := net.outQueue ++ w.game.outQueue })

/-! ## The two phases of `MovePlayer` -/

section Phases

variable (platform : Platform) (config : GameConfig) (player : Player) (velX velY : ℚ)

@[simp] theorem sweep_zero (box : Box) : config.sweep platform box 0 0 = .miss := by
  simp [GameConfig.sweep, sweptAxis, findCollisionIndices]

@[simp] theorem miss_hit : SweptData.miss.hit = false := rfl

theorem moveX_eq : moveX platform config player velX velY =
    let swept := config.sweep platform player.toBox velX 0
    let moved := player.move (velX * swept.entryTime) 0
    (velX * swept.entryTime, if swept.hit then moved.setVel 0 velY else moved) := by
  unfold moveX
  by_cases h : velX = 0
  · simp [h]
  · simp [h]

theorem moveX_toBox : (moveX platform config player velX velY).2.toBox =
    player.toBox.move (velX * (config.sweep platform player.toBox velX 0).entryTime) 0 := by
  rw [moveX_eq]
  dsimp only
  split <;> rfl

@[simp] theorem moveX_id : (moveX platform config player velX velY).2.id = player.id := by
  rw [moveX_eq]
  dsimp only
  split <;> rfl

@[simp] theorem moveX_onGround :
    (moveX platform config player velX velY).2.onGround = player.onGround := by
  rw [moveX_eq]
  dsimp only
  split <;> rfl

/-- The local `vel_x` after the X axis phase is scaled by the entry time. -/
theorem moveX_fst : (moveX platform config player velX velY).1 =
    velX * (config.sweep platform player.toBox velX 0).entryTime := by
  rw [moveX_eq]

/-- A hit along `x` stops the player on this axis. -/
theorem moveX_velX : (moveX platform config player velX velY).2.velX =
    if (config.sweep platform player.toBox velX 0).hit then 0 else player.velX := by
  rw [moveX_eq]
  dsimp only
  split <;> rfl

theorem moveX_velY : (moveX platform config player velX velY).2.velY =
    if (config.sweep platform player.toBox velX 0).hit then velY else player.velY := by
  rw [moveX_eq]
  dsimp only
  split <;> rfl

/-- What the Y axis phase does, up to the flag. -/
theorem exists_moveY_eq : ∃ state, moveY platform config player velX velY =
    let swept := config.sweep platform player.toBox 0 velY
    let moved := (player.move 0 (velY * swept.entryTime)).setOnGround state
    if swept.hit then moved.setVel velX 0 else moved := by
  unfold moveY
  by_cases h : velY = 0
  · exact ⟨player.onGround, by simp [h, Player.setOnGround]⟩
  · simp only [h, ne_eq, not_false_eq_true, if_true]
    by_cases hdown : 0 ≤ velY * (config.sweep platform player.toBox 0 velY).entryTime
    · by_cases hhit : (config.sweep platform player.toBox 0 velY).hit = true
      · exact ⟨true, by rw [if_pos hhit, if_pos hhit, if_pos hdown]; rfl⟩
      · exact ⟨false, by rw [if_neg hhit, if_neg hhit]⟩
    · exact ⟨false, by rw [if_neg hdown]⟩

theorem moveY_toBox : (moveY platform config player velX velY).toBox =
    player.toBox.move 0 (velY * (config.sweep platform player.toBox 0 velY).entryTime) := by
  obtain ⟨state, hmove⟩ := exists_moveY_eq platform config player velX velY
  rw [hmove]
  dsimp only
  split <;> rfl

/-- A hit along `y` sets the velocity on the other axis to the local `vel_x`. -/
theorem moveY_velX : (moveY platform config player velX velY).velX =
    if (config.sweep platform player.toBox 0 velY).hit then velX else player.velX := by
  obtain ⟨state, hmove⟩ := exists_moveY_eq platform config player velX velY
  rw [hmove]
  dsimp only
  split <;> rfl

/-- A hit along `y` stops the player on this axis. -/
theorem moveY_velY : (moveY platform config player velX velY).velY =
    if (config.sweep platform player.toBox 0 velY).hit then 0 else player.velY := by
  obtain ⟨state, hmove⟩ := exists_moveY_eq platform config player velX velY
  rw [hmove]
  dsimp only
  split <;> rfl

@[simp] theorem moveY_id : (moveY platform config player velX velY).id = player.id := by
  obtain ⟨state, hmove⟩ := exists_moveY_eq platform config player velX velY
  rw [hmove]
  dsimp only
  split <;> rfl

@[simp] theorem movePlayer_id : (movePlayer platform config player).id = player.id := by
  simp [movePlayer]

end Phases

/-! ## The player map -/

namespace World

variable {platform : Platform} {config : GameConfig} {dt : ℚ} {w w' : World} {id j : UInt64}
  {body : Player → Player × List ServerPacket}

@[simp] theorem pushOut_players (w : World) (packets : List ServerPacket) :
    (w.pushOut packets).players = w.players := rfl
@[simp] theorem pushOut_iterations (w : World) (packets : List ServerPacket) :
    (w.pushOut packets).iterations = w.iterations := rfl
@[simp] theorem pushOut_inQueue (w : World) (packets : List ServerPacket) :
    (w.pushOut packets).game.inQueue = w.game.inQueue := rfl
@[simp] theorem pushOut_outQueue (w : World) (packets : List ServerPacket) :
    (w.pushOut packets).game.outQueue = w.game.outQueue ++ packets := rfl
@[simp] theorem store_iterations (w : World) (id : UInt64) (player : Player) :
    (w.store id player).iterations = w.iterations := rfl
@[simp] theorem store_game (w : World) (id : UInt64) (player : Player) :
    (w.store id player).game = w.game := rfl

theorem lookup_store (w : World) (id j : UInt64) (player : Player) :
    (w.store id player).players.lookup j =
      if j = id then some (some player) else w.players.lookup j := by
  by_cases h : j = id
  · subst h
    simp [store]
  · simp [store, h]

theorem lookup_touch (w : World) (id j : UInt64) :
    (w.touch id).players.lookup j =
      if j = id then some (w.player? id) else w.players.lookup j := by
  unfold touch player?
  by_cases hj : j = id
  · subst hj
    cases h : w.players.lookup j with
    | none => simp
    | some v => simp [h]
  · cases h : w.players.lookup id with
    | none => simp [hj]
    | some v => simp [hj]

@[simp] theorem touch_game (w : World) (id : UInt64) : (w.touch id).game = w.game := by
  unfold touch
  split <;> rfl

@[simp] theorem touch_iterations (w : World) (id : UInt64) :
    (w.touch id).iterations = w.iterations := by
  unfold touch
  split <;> rfl

@[simp] theorem player?_touch (w : World) (id j : UInt64) :
    (w.touch id).player? j = w.player? j := by
  rw [player?, lookup_touch]
  by_cases h : j = id
  · simp [h]
  · simp [h, player?]

theorem player?_store (w : World) (id j : UInt64) (player : Player) :
    (w.store id player).player? j = if j = id then some player else w.player? j := by
  rw [player?, lookup_store]
  by_cases h : j = id
  · simp [h]
  · simp [h, player?]

theorem lookup_removePlayer (w : World) (id j : UInt64) :
    (w.removePlayer id).players.lookup j = if j = id then none else w.players.lookup j := by
  by_cases h : j = id
  · subst h
    simp [removePlayer]
  · simp [removePlayer, h]

theorem player?_removePlayer (w : World) (id j : UInt64) :
    (w.removePlayer id).player? j = if j = id then none else w.player? j := by
  rw [player?, lookup_removePlayer]
  split_ifs <;> rfl

theorem player?_eq_some {p : Player} :
    w.player? id = some p ↔ w.players.lookup id = some (some p) := by
  simp [player?, Option.join_eq_some_iff]

/-- Every pointer in the map points to a player whose id is the key. -/
def Sound (w : World) : Prop :=
  ∀ id v, w.players.lookup id = some v → ∃ p, v = some p ∧ p.id = id

/-! ## Loops over the players -/

theorem visit_eq_some {item : Sigma fun _ : UInt64 => Option Player} :
    w.visit body item = some w' ↔ ∃ p, w.player? item.1 = some p ∧
      w' = (w.store item.1 (body p).1).pushOut (body p).2 := by
  simp [visit, eq_comm]

/-- What a loop over the entries `items` of `w` leaves. -/
structure Visited (body : Player → Player × List ServerPacket)
    (items : List (Sigma fun _ : UInt64 => Option Player)) (w w' : World) : Prop where
  not_null : ∀ item ∈ items, item.2 ≠ none
  lookup : ∀ id, w'.players.lookup id =
    if id ∈ items.keys then (w.players.lookup id).map (Option.map fun p => (body p).1)
    else w.players.lookup id
  outQueue : w'.game.outQueue =
    w.game.outQueue ++ items.flatMap fun item => (item.2.map fun p => (body p).2).getD []
  inQueue : w'.game.inQueue = w.game.inQueue
  iterations : w'.iterations = w.iterations

/-- The loop, entry by entry: each body finds its own entry untouched. -/
theorem visited_of_foldlM (items : List (Sigma fun _ : UInt64 => Option Player)) {w w' : World}
    (hnodup : items.NodupKeys) (hitems : ∀ item ∈ items, w.players.lookup item.1 = some item.2)
    (h : items.foldlM (visit body) w = some w') : Visited body items w w' := by
  induction items generalizing w with
  | nil =>
    cases h
    exact ⟨by simp, by simp, by simp, rfl, rfl⟩
  | cons item items ih =>
    rw [List.foldlM_cons, Option.bind_eq_bind, Option.bind_eq_some_iff] at h
    obtain ⟨w1, hvisit, hrest⟩ := h
    obtain ⟨p, hp, rfl⟩ := visit_eq_some.mp hvisit
    have hlook := hitems item List.mem_cons_self
    have hitem : item.2 = some p := by simpa [player?, hlook] using hp
    obtain ⟨hfresh, hnodup'⟩ := List.nodupKeys_cons.mp hnodup
    have hrec := ih hnodup' (by
      intro other hother
      have hne : other.1 ≠ item.1 := by
        intro heq
        exact hfresh (heq ▸ List.mem_keys_of_mem hother)
      simpa [lookup_store, hne] using hitems other (List.mem_cons_of_mem _ hother)) hrest
    refine ⟨?_, ?_, ?_, hrec.inQueue, hrec.iterations⟩
    · intro other hother
      rcases List.mem_cons.mp hother with rfl | hother
      · simp [hitem]
      · exact hrec.not_null other hother
    · intro id
      rw [hrec.lookup, pushOut_players, lookup_store]
      by_cases hid : id = item.1
      · subst hid
        simp [hfresh, hlook, hitem]
      · simp [hid]
    · rw [hrec.outQueue]
      simp [hitem]

theorem isSome_foldlM_visit (items : List (Sigma fun _ : UInt64 => Option Player)) {w : World}
    (hnodup : items.NodupKeys) (hitems : ∀ item ∈ items, w.players.lookup item.1 = some item.2)
    (hnull : ∀ item ∈ items, item.2 ≠ none) : (items.foldlM (visit body) w).isSome := by
  induction items generalizing w with
  | nil => rfl
  | cons item items ih =>
    obtain ⟨p, hp⟩ := Option.ne_none_iff_exists'.mp (hnull item List.mem_cons_self)
    have hlook := hitems item List.mem_cons_self
    have hvisit : w.visit body item = some ((w.store item.1 (body p).1).pushOut (body p).2) :=
      visit_eq_some.mpr ⟨p, by simp [player?, hlook, hp], rfl⟩
    obtain ⟨hfresh, hnodup'⟩ := List.nodupKeys_cons.mp hnodup
    rw [List.foldlM_cons, hvisit, Option.bind_eq_bind, Option.bind_some]
    refine ih hnodup' ?_ fun other hother => hnull other (List.mem_cons_of_mem _ hother)
    intro other hother
    have hne : other.1 ≠ item.1 := by
      intro heq
      exact hfresh (heq ▸ List.mem_keys_of_mem hother)
    simpa [lookup_store, hne] using hitems other (List.mem_cons_of_mem _ hother)

theorem forEach_eq_some (h : w.forEach platform body = some w') :
    (∀ id, w.players.lookup id ≠ some none) ∧
      (∀ id, w'.players.lookup id =
        (w.players.lookup id).map (Option.map fun p => (body p).1)) ∧
      w'.game.outQueue = w.game.outQueue ++
        (platform.iterate w.iterations w.players.entries).flatMap
          (fun item => (item.2.map fun p => (body p).2).getD []) ∧
      w'.game.inQueue = w.game.inQueue ∧ w'.iterations = w.iterations + 1 := by
  have hv := visited_of_foldlM (w := { w with iterations := w.iterations + 1 }) _
    (Platform.nodupKeys_iterate w.players w.iterations)
    (fun item hitem => Platform.mem_iterate.mp hitem) h
  refine ⟨?_, ?_, hv.outQueue, hv.inQueue, hv.iterations⟩
  · intro id hnull
    exact hv.not_null ⟨id, none⟩ (Platform.mem_iterate.mpr hnull) rfl
  · intro id
    rw [hv.lookup]
    split_ifs with hid
    · rfl
    · rw [Platform.mem_keys_iterate, not_exists] at hid
      have hnone : w.players.lookup id = none := Option.eq_none_iff_forall_not_mem.mpr hid
      simp [hnone]

/-- A loop over the players acts on each of them alone. -/
theorem player?_forEach (h : w.forEach platform body = some w') (id : UInt64) :
    w'.player? id = (w.player? id).map fun player => (body player).1 := by
  rw [player?, (forEach_eq_some h).2.1, player?]
  rcases w.players.lookup id with _ | _ | player <;> rfl

theorem forEach_inQueue (h : w.forEach platform body = some w') :
    w'.game.inQueue = w.game.inQueue := (forEach_eq_some h).2.2.2.1

theorem forEach_outQueue_of_silent (hbody : ∀ player, (body player).2 = [])
    (h : w.forEach platform body = some w') : w'.game.outQueue = w.game.outQueue := by
  rw [(forEach_eq_some h).2.2.1, List.flatMap_eq_nil_iff.mpr, List.append_nil]
  intro item _
  cases item.2 with
  | none => rfl
  | some player => exact hbody player

theorem forEach_isSome (platform : Platform) (body : Player → Player × List ServerPacket)
    (h : ∀ id, w.players.lookup id ≠ some none) :
    ∃ w', w.forEach platform body = some w' := by
  refine Option.isSome_iff_exists.mp (isSome_foldlM_visit _
    (Platform.nodupKeys_iterate w.players w.iterations)
    (fun item hitem => Platform.mem_iterate.mp hitem) ?_)
  rintro ⟨id, v⟩ hitem rfl
  exact h id (Platform.mem_iterate.mp hitem)

end World

end EndlessPeak
