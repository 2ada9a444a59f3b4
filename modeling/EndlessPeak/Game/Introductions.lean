import EndlessPeak.Game.Observer

/-!
# Who has been introduced

The world says three things about a player that joins: its own client gets a
`CreatePlayer` and the snapshot `SpawnPlayers`, the other clients get an `AddPlayer`.
Only then it says `MovePlayer` and, at the end, `RemovePlayer`. This is the log of the
world; which clients hear of it is not decided here.

* `Known`: a player has been added and not been removed since; `known_snoc`.
* `Proper`: what the world may say after a log.
* `Introduces`: the players that are there are the known ones, and the world has said
  only what is proper; `introduces_processInput`, `introduces_visit` and
  `introduces_tick` are the steps.
-/

namespace EndlessPeak

open Lib

/-! ## The log of the world -/

/-- An `AddPlayer` about `id`. -/
def IsAddOf (id : UInt64) (p : ServerPacket) : Prop := p.opcode = some .addPlayer ∧ p.id = id

/-- A `RemovePlayer` about `id`. -/
def IsRemovalOf (id : UInt64) (p : ServerPacket) : Prop :=
  p.opcode = some .removePlayer ∧ p.id = id

/-- The player `id` has been added and has not been removed since. -/
def Known (log : List ServerPacket) (id : UInt64) : Prop :=
  Since (IsAddOf id) (IsRemovalOf id) log

/-- A packet that the world may push after `log`. -/
inductive Proper (platform : Platform) (log : List ServerPacket) : ServerPacket → Prop
  | create (player : Player) : Proper platform log (createPacket platform player)
  /-- The snapshot lists all other players that are known. -/
  | spawn (packet : NetPacket) (id : UInt64) (hop : packet.getHeadOpcode = toUInt16 .spawnPlayers)
      (hbody : packet.body ≠ none) (hall : ∀ j, j ≠ id → Known log j →
        j ∈ (readSpawn (packet.body.getD [])).map Prod.fst) :
      Proper platform log (spawnPacket packet id)
  /-- A player is introduced to the others right after it has got its snapshot. -/
  | add (player : Player) (before : List ServerPacket) (spawn : ServerPacket)
      (hspawn : spawn.opcode = some .spawnPlayers)
      (hlog : log = before ++ [createPacket platform player, spawn]) :
      Proper platform log (addPacket platform player)
  | move (player : Player) (h : Known log player.id) :
      Proper platform log (movePacket platform player)
  | remove (id : UInt64) (h : Known log id) : Proper platform log (removalPacket id)

variable {platform : Platform} {config : GameConfig} {dt : ℚ} {log : List ServerPacket}
  {p : ServerPacket} {player : Player} {id : UInt64} {w w' : World}

theorem known_snoc :
    Known (log ++ [p]) id ↔ IsAddOf id p ∨ Known log id ∧ ¬ IsRemovalOf id p := Since.snoc_iff

theorem known_snoc_other (hadd : p.opcode ≠ some .addPlayer)
    (hremove : p.opcode ≠ some .removePlayer) : Known (log ++ [p]) id ↔ Known log id := by
  rw [known_snoc]
  simp [IsAddOf, IsRemovalOf, hadd, hremove]

theorem known_addPacket :
    Known (log ++ [addPacket platform player]) id ↔ id = player.id ∨ Known log id := by
  rw [known_snoc]
  have hid : (addPacket platform player).id = player.id := rfl
  simp [IsAddOf, IsRemovalOf, hid, eq_comm]

theorem known_removalPacket (j : UInt64) :
    Known (log ++ [removalPacket j]) id ↔ id ≠ j ∧ Known log id := by
  rw [known_snoc]
  have hid : (removalPacket j).id = j := rfl
  simp [IsAddOf, IsRemovalOf, hid, eq_comm, and_comm]

/-! ## The world keeps to it -/

/-- Every player is stored under its id, the players that are there are the known ones,
    and everything that has been pushed was proper. -/
structure Introduces (platform : Platform) (log : List ServerPacket) (w : World) : Prop where
  ids : w.All fun id p => p.id = id
  known : ∀ id, w.player? id ≠ none ↔ Known (log ++ w.game.outQueue) id
  proper : EachAfter (Proper platform) (log ++ w.game.outQueue)

/-- A step without packets that adds and removes no player. -/
theorem Introduces.of_same (h : Introduces platform log w) (hids : w'.All fun id p => p.id = id)
    (hout : w'.game.outQueue = w.game.outQueue)
    (hplayers : ∀ id, w'.player? id ≠ none ↔ w.player? id ≠ none) :
    Introduces platform log w' := by
  refine ⟨hids, ?_, ?_⟩
  · intro id
    rw [hplayers, hout]
    exact h.known id
  · rw [hout]
    exact h.proper

theorem introduces_removePlayer (h : Introduces platform log w) (hid : w.player? id ≠ none) :
    Introduces platform log (w.removePlayer id) := by
  have hout : log ++ (w.removePlayer id).game.outQueue =
      log ++ w.game.outQueue ++ [removalPacket id] := by
    simp [World.removePlayer, removalPacket]
  refine ⟨World.all_removePlayer h.ids id, ?_, ?_⟩
  · intro j
    rw [hout, known_removalPacket, World.player?_removePlayer, ← h.known]
    by_cases hj : j = id <;> simp [hj]
  · rw [hout]
    exact EachAfter.snoc_iff.mpr ⟨h.proper, .remove id ((h.known id).mp hid)⟩

/-- Visiting a player in the loop of `Tick` moves a known player. -/
theorem introduces_visit {item : Sigma fun _ : UInt64 => Option Player}
    (h : Introduces platform log w)
    (hvisit : w.visit (update platform config dt) item = some w') :
    Introduces platform log w' := by
  obtain ⟨q, hq, rfl⟩ := World.visit_eq_some.mp hvisit
  have hid : (update platform config dt q).1.id = item.1 := by
    simpa [update, applyGravity] using h.ids item.1 q hq
  have hpackets : (update platform config dt q).2 =
      [movePacket platform (update platform config dt q).1] := rfl
  rw [hpackets]
  generalize (update platform config dt q).1 = moved at hid
  have hplayer : ∀ j, ((w.store item.1 moved).pushOut [movePacket platform moved]).player? j =
      if j = item.1 then some moved else w.player? j :=
    fun j => World.player?_store w item.1 j moved
  have hout : log ++ ((w.store item.1 moved).pushOut [movePacket platform moved]).game.outQueue =
      log ++ w.game.outQueue ++ [movePacket platform moved] := by
    simp
  have hknown : Known (log ++ w.game.outQueue) moved.id := by
    rw [hid, ← h.known, hq]
    simp
  refine ⟨World.all_store h.ids hid, ?_, ?_⟩
  · intro j
    rw [hout, known_snoc_other (by simp) (by simp), ← h.known, hplayer]
    by_cases hj : j = item.1
    · simp [hj, hq]
    · simp [hj]
  · rw [hout]
    exact EachAfter.snoc_iff.mpr ⟨h.proper, .move moved hknown⟩

/-- The snapshot that `AddPlayer` builds has a body. -/
theorem spawnOthers_body {size : ℕ} {items : List (Sigma fun _ : UInt64 => Option Player)}
    {packet : NetPacket} (h : spawnOthers platform id (spawnHeader size) items = some packet) :
    packet.body ≠ none := by
  intro hnone
  have hbody := (World.spawnOthers_eq_some _ h).2.2
  have hheader : (spawnHeader size).body.getD [] = beBytes 8 (UInt64.ofNat (size - 1)).toNat := by
    simp [spawnHeader, PodType.repr, beBytes]
  have hlen := congrArg List.length hbody
  rw [hnone, hheader, List.length_append, length_beBytes] at hlen
  simp only [Option.getD_none, List.length_nil] at hlen
  omega

theorem introduces_addPlayer (h : Introduces platform log w)
    (hadd : w.addPlayer platform player = some w') : Introduces platform log w' := by
  obtain ⟨-, hplayers, -, -, packet, hspawn, hout⟩ := World.addPlayer_eq_some hadd
  have hop : packet.getHeadOpcode = toUInt16 .spawnPlayers := by
    rw [(World.spawnOthers_eq_some _ hspawn).2.1]
    simp [spawnHeader]
  have hids := World.all_addPlayer h.ids rfl hadd
  have hout' : log ++ w'.game.outQueue = log ++ w.game.outQueue ++ [createPacket platform player]
      ++ [spawnPacket packet player.id] ++ [addPacket platform player] := by
    simp [hout]
  have hspawnOp := spawnPacket_opcode player.id hop
  have hcreated : ∀ j, Known (log ++ w.game.outQueue ++ [createPacket platform player]) j ↔
      w.player? j ≠ none := fun j => by
    rw [known_snoc_other (by simp) (by simp), ← h.known]
  refine ⟨hids, ?_, ?_⟩
  · intro j
    rw [hout', known_addPacket, known_snoc_other (by simp [hspawnOp]) (by simp [hspawnOp]),
      hcreated, World.player?_addPlayer hadd]
    by_cases hj : j = player.id <;> simp [hj]
  · rw [hout']
    refine EachAfter.snoc_iff.mpr ⟨EachAfter.snoc_iff.mpr ⟨EachAfter.snoc_iff.mpr
      ⟨h.proper, .create player⟩, ?_⟩, .add player (log ++ w.game.outQueue) _ hspawnOp (by simp)⟩
    refine .spawn packet player.id hop (spawnOthers_body hspawn) ?_
    intro j hj hknown
    -- the records are read back as the other players that are there
    obtain ⟨q, hq⟩ := Option.ne_none_iff_exists'.mp ((hcreated j).mp hknown)
    have hmem : player.id ∈ (w.store player.id player).players := by simp [World.store]
    have hlookup := lookup_readSpawn hmem (fun k r hr => hids k r (World.player?_eq_some.mpr
      (by rw [hplayers, hr]))) hspawn j
    have hentry : ((w.store player.id player).players.lookup j).join = some q := by
      rw [← World.player?, World.player?_store, if_neg hj, hq]
    rw [if_neg hj, hentry, Option.map_some, List.lookup_eq_some_iff] at hlookup
    obtain ⟨l₁, l₂, hsplit, -⟩ := hlookup
    rw [hsplit]
    simp

/-- The input phase, packet by packet: `RemovePlayer` comes only for players that are
    there. -/
theorem introduces_processInput (h : Introduces platform log w)
    (hsure : p.opcode = some .removePlayer → w.player? p.id ≠ none)
    (hstep : w.processInput platform config dt p = some w') : Introduces platform log w' := by
  have htouch : Introduces platform log (w.touch p.id) :=
    h.of_same (fun j q hq => h.ids j q (by simpa using hq)) (by simp) (by simp)
  rcases World.processInput_cases hstep with
    ⟨-, hadd⟩ | ⟨ho, rfl⟩ | ⟨o, q, -, -, hq, rfl⟩ | ⟨-, rfl⟩
  · exact introduces_addPlayer htouch hadd
  · exact introduces_removePlayer htouch (by simpa using hsure ho)
  · refine htouch.of_same (World.all_store htouch.ids ?_) (by simp) ?_
    · rw [World.command_id]
      exact h.ids _ q hq
    · intro j
      rw [World.player?_store, World.player?_touch]
      split_ifs with hj
      · simp [hj, hq]
      · rfl
  · exact htouch

/-- A packet of `batch`, processed after `history`, that removes a player finds it. -/
def Removable (history pre : List ServerPacket) (p : ServerPacket) : Prop :=
  p.opcode = some .removePlayer → Live (history ++ pre) p.id

theorem introduces_foldlM {history batch : List ServerPacket} (h : Introduces platform log w)
    (hagrees : World.Agrees history w) (hsure : EachAfter (Removable history) batch)
    (hfold : batch.foldlM (World.processInput platform config dt) w = some w') :
    Introduces platform log w' := by
  induction batch using List.reverseRecOn generalizing w' with
  | nil =>
    cases hfold
    exact h
  | append_singleton batch p ih =>
    obtain ⟨hsure, hlast⟩ := EachAfter.snoc_iff.mp hsure
    rw [List.foldlM_append, Option.bind_eq_bind, Option.bind_eq_some_iff] at hfold
    obtain ⟨v, hv, hlastStep⟩ := hfold
    have hstep : v.processInput platform config dt p = some w' := by simpa using hlastStep
    have hagreesV := World.agrees_foldlM hagrees hv
    exact introduces_processInput (ih hsure hv) (fun ho => (hagreesV p.id).mpr (hlast ho)) hstep

theorem introduces_reset (h : Introduces platform log w)
    (hloop : w.forEach platform (fun player => (player.setVel 0 player.velY, [])) = some w') :
    Introduces platform log w' := by
  refine h.of_same (World.all_forEach (fun _ q _ hq => hq) h.ids hloop)
    (World.forEach_outQueue_of_silent (fun _ => rfl) hloop) ?_
  intro id
  rw [World.player?_forEach hloop, ne_eq, Option.map_eq_none_iff]

/-- A tick keeps the log proper; its packets are appended to the log. -/
theorem introduces_tick {history : List ServerPacket} {net net' : Subsystem}
    (h : Introduces platform (log ++ net.outQueue) w)
    (hagrees : World.Agrees history w) (hsure : EachAfter (Removable history) net.inQueue)
    (htick : w.tick platform config dt net = some (w', net')) :
    Introduces platform (log ++ net'.outQueue) w' := by
  obtain ⟨w2, w3, hin, hloop, rfl, rfl⟩ := World.tick_eq_some.mp htick
  obtain ⟨w1, hreset, hfold⟩ := World.inputPhase_eq_some.mp hin
  have h0 : Introduces platform (log ++ net.outQueue)
      { w with game := { w.game with inQueue := net.inQueue } } := ⟨h.ids, h.known, h.proper⟩
  have h1 := introduces_reset h0 hreset
  have h1' : Introduces platform (log ++ net.outQueue)
      { w1 with game := { w1.game with inQueue := [] } } := ⟨h1.ids, h1.known, h1.proper⟩
  have hagrees1 : World.Agrees history w1 :=
    World.agrees_forEach (w := { w with game := { w.game with inQueue := net.inQueue } })
      hagrees hreset
  have h2 := introduces_foldlM h1' hagrees1 hsure hfold
  have h2' : Introduces platform (log ++ net.outQueue)
      { w2 with iterations := w2.iterations + 1 } := ⟨h2.ids, h2.known, h2.proper⟩
  have h3 : Introduces platform (log ++ net.outQueue) w3 :=
    (run_iff_foldlM.mpr hloop).invariant h2' fun _ _ _ hv hstep => introduces_visit hv hstep
  refine ⟨h3.ids, ?_, ?_⟩
  · intro id
    rw [List.append_nil, ← List.append_assoc]
    exact h3.known id
  · rw [List.append_nil, ← List.append_assoc]
    exact h3.proper

end EndlessPeak
