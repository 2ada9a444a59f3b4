import EndlessPeak.Game.Introductions

/-!
# The packets of a tick

A tick first answers its inbound packets: three packets for a `CreatePlayer`, one for a
`RemovePlayer`, none for the others. Then it pushes one `MovePlayer` for every player
that is left, with the place where the tick leaves it.

* `Said`: the packets that the world builds; `said_processInput`.
* `moves_forEach`: what the loop over the players pushes.
* `tick_tells`: the log of a tick, in every run.
-/

namespace EndlessPeak

open Lib

/-! ## What the world says -/

/-- The number of packets that `World::ProcessInput` pushes for this one. -/
def ServerPacket.answers (p : ServerPacket) : ℕ :=
  match p.opcode with
  | some .createPlayer => 3
  | some .removePlayer => 1
  | _ => 0

/-- A packet as one of the functions of the world builds it. -/
inductive Said (platform : Platform) : ServerPacket → Prop
  | create (player : Player) : Said platform (createPacket platform player)
  | spawn (packet : NetPacket) (id : UInt64) (hop : packet.getHeadOpcode = toUInt16 .spawnPlayers)
      (hbody : packet.body ≠ none) : Said platform (spawnPacket packet id)
  | add (player : Player) : Said platform (addPacket platform player)
  | move (player : Player) : Said platform (movePacket platform player)
  | remove (id : UInt64) : Said platform (removalPacket id)

variable {platform : Platform} {config : GameConfig} {dt : ℚ} {p : ServerPacket} {player : Player}
  {w w' : World}

theorem Said.body_ne_none (h : Said platform p) : p.packet.body ≠ none := by
  cases h with
  | create player => simp [createPacket_body]
  | spawn packet id hop hbody => exact hbody
  | add player => simp [addPacket_body]
  | move player => simp [movePacket_body]
  | remove id => simp [removalPacket_body]

theorem Said.type_of_spawn (h : Said platform p) (hop : p.opcode = some .spawnPlayers) :
    p.type = .rpc := by
  cases h with
  | spawn packet id hhead hbody => rfl
  | create player => simp at hop
  | add player => simp at hop
  | move player => simp at hop
  | remove id => simp at hop

/-- From `w` to `w'` the world pushes `count` packets, none of which moves a player. -/
def Answered (platform : Platform) (count : ℕ) (w w' : World) : Prop :=
  ∃ new, w'.game.outQueue = w.game.outQueue ++ new ∧ new.length = count ∧
    ∀ q ∈ new, Said platform q ∧ q.opcode ≠ some .movePlayer

theorem Answered.trans {m n : ℕ} {w'' : World} (h : Answered platform m w w')
    (h' : Answered platform n w' w'') : Answered platform (m + n) w w'' := by
  obtain ⟨new, hout, hlen, hsaid⟩ := h
  obtain ⟨new', hout', hlen', hsaid'⟩ := h'
  refine ⟨new ++ new', by rw [hout', hout, List.append_assoc], by simp [hlen, hlen'], ?_⟩
  intro q hq
  rcases List.mem_append.mp hq with hq | hq
  · exact hsaid q hq
  · exact hsaid' q hq

/-- The three packets of `AddPlayer`. -/
theorem said_addPlayer (h : w.addPlayer platform player = some w') :
    Answered platform 3 w w' := by
  obtain ⟨-, -, -, -, packet, hspawn, hout⟩ := World.addPlayer_eq_some h
  have hop : packet.getHeadOpcode = toUInt16 .spawnPlayers := by
    rw [(World.spawnOthers_eq_some _ hspawn).2.1]
    simp [spawnHeader]
  refine ⟨_, hout, rfl, ?_⟩
  simp only [List.mem_cons, List.not_mem_nil, or_false]
  rintro q (rfl | rfl | rfl)
  · exact ⟨.create player, by simp⟩
  · exact ⟨.spawn packet player.id hop (spawnOthers_body hspawn), by
      simp [spawnPacket_opcode player.id hop]⟩
  · exact ⟨.add player, by simp⟩

theorem said_processInput (h : w.processInput platform config dt p = some w') :
    Answered platform p.answers w w' := by
  rcases World.processInput_cases h with
    ⟨ho, hadd⟩ | ⟨ho, rfl⟩ | ⟨o, q, ho, hcommand, -, rfl⟩ | ⟨ho, rfl⟩
  · obtain ⟨new, hout, hlen, hsaid⟩ := said_addPlayer hadd
    exact ⟨new, by simpa using hout, by simp [ServerPacket.answers, ho, hlen], hsaid⟩
  · refine ⟨[removalPacket p.id], by simp [World.removePlayer, removalPacket], ?_, ?_⟩
    · simp [ServerPacket.answers, ho]
    · intro q hq
      rw [List.mem_singleton.mp hq]
      exact ⟨.remove p.id, by simp⟩
  · refine ⟨[], by simp, ?_, by simp⟩
    rcases hcommand with rfl | rfl | rfl <;> simp [ServerPacket.answers, ho]
  · refine ⟨[], by simp, ?_, by simp⟩
    unfold ServerPacket.answers
    split
    · rename_i hc
      exact absurd rfl (ho _ hc).1
    · rename_i hr
      exact absurd rfl (ho _ hr).2.1
    · rfl

theorem said_foldlM {batch : List ServerPacket}
    (h : batch.foldlM (World.processInput platform config dt) w = some w') :
    Answered platform (batch.map ServerPacket.answers).sum w w' := by
  refine (run_iff_foldlM.mpr h).invariant_trace (I := fun batch v =>
    Answered platform (batch.map ServerPacket.answers).sum w v) ⟨[], by simp⟩ ?_
  intro batch v p v' hv hstep
  rw [List.map_append, List.sum_append, List.map_singleton, List.sum_singleton]
  exact hv.trans (said_processInput hstep)

/-! ## The loop over the players -/

/-- The loop at the end of a tick pushes one `MovePlayer` for every player, with its new
    position. -/
theorem moves_forEach (h : w.forEach platform (update platform config dt) = some w') :
    ∃ moves, w'.game.outQueue = w.game.outQueue ++ moves ∧
      moves.Perm (w'.players.entries.filterMap fun item => item.2.map (movePacket platform)) := by
  obtain ⟨-, hlookup, hout, -, -⟩ := World.forEach_eq_some h
  refine ⟨_, hout, ?_⟩
  -- the entries after the loop are the old ones, in some order, with the players updated
  let after : (Sigma fun _ : UInt64 => Option Player) → Sigma fun _ : UInt64 => Option Player :=
    Sigma.map id fun _ => Option.map fun player => (update platform config dt player).1
  have hentries : (w'.players.entries).Perm (w.players.entries.map after) := by
    refine List.lookup_ext w'.players.nodupKeys ?_ ?_
    · rw [List.NodupKeys, List.keys, List.map_map]
      exact w.players.nodupKeys
    · intro id v
      have hmap : (w.players.entries.map after).dlookup id = (w.players.entries.dlookup id).map
          (Option.map fun player => (update platform config dt player).1) :=
        List.dlookup_map w.players.entries Function.injective_id _ id
      rw [hmap]
      show v ∈ w'.players.lookup id ↔ _
      rw [hlookup]
      rfl
  have hmoves : ∀ items : List (Sigma fun _ : UInt64 => Option Player),
      (items.flatMap fun item =>
        (item.2.map fun player => (update platform config dt player).2).getD []) =
          (items.map after).filterMap fun item => item.2.map (movePacket platform) := by
    intro items
    induction items with
    | nil => rfl
    | cons item items ih =>
      obtain ⟨id, v⟩ := item
      rw [List.flatMap_cons, ih, List.map_cons]
      cases v with
      | none => rfl
      | some player => rfl
  rw [hmoves]
  exact (((platform.iterate_perm _ _).map after).trans hentries.symm).filterMap _

/-! ## Ticks -/

/-- What a tick adds to the network out queue: the answers to its packets, and then the
    players that are left, each once. -/
structure Told (platform : Platform) (inputs : List ServerPacket) (players : PlayerMap)
    (answers moves : List ServerPacket) : Prop where
  length_answers : answers.length = (inputs.map ServerPacket.answers).sum
  said_answers : ∀ q ∈ answers, Said platform q ∧ q.opcode ≠ some .movePlayer
  moves_perm : moves.Perm
    (players.entries.filterMap fun item => item.2.map (movePacket platform))

theorem told_tick {net net' : Subsystem} (hout : w.game.outQueue = [])
    (h : w.tick platform config dt net = some (w', net')) :
    ∃ answers moves, net'.outQueue = net.outQueue ++ answers ++ moves ∧
      Told platform net.inQueue w'.players answers moves := by
  obtain ⟨w2, w3, hin, hloop, rfl, rfl⟩ := World.tick_eq_some.mp h
  obtain ⟨w1, hreset, hfold⟩ := World.inputPhase_eq_some.mp hin
  have hquiet : w1.game.outQueue = [] := by
    rw [World.forEach_outQueue_of_silent (fun _ => rfl) hreset]
    exact hout
  obtain ⟨answers, hanswers, hlen, hsaid⟩ := said_foldlM hfold
  obtain ⟨moves, hmoves, hperm⟩ := moves_forEach hloop
  have hsplit : w3.game.outQueue = answers ++ moves := by
    rw [hmoves, hanswers]
    simp [hquiet]
  exact ⟨answers, moves, by simp [hsplit], hlen, hsaid, hperm⟩

/-- A `MovePlayer` in what a tick pushes says where some player is. -/
theorem Told.said {inputs answers moves : List ServerPacket} {players : PlayerMap}
    (h : Told platform inputs players answers moves) {q : ServerPacket}
    (hq : q ∈ answers ++ moves) : Said platform q := by
  rcases List.mem_append.mp hq with hq | hq
  · exact (h.said_answers q hq).1
  · obtain ⟨item, -, hitem⟩ := List.mem_filterMap.mp (h.moves_perm.mem_iff.mp hq)
    obtain ⟨player, -, rfl⟩ := Option.map_eq_some_iff.mp hitem
    exact .move player

/-- Between ticks the game out queue is empty. -/
theorem game_outQueue {turns : List Turn} {s : World × Subsystem}
    (h : GameRun platform config turns s) : s.1.game.outQueue = [] := by
  refine h.invariant (I := fun s => s.1.game.outQueue = []) rfl ?_
  rintro ⟨w, net⟩ turn ⟨w', net'⟩ - hstep
  obtain ⟨_, _, -, -, rfl, -⟩ := World.tick_eq_some.mp hstep
  rfl

end EndlessPeak
