import EndlessPeak.Game.NullSafety

/-!
# What a client can know about the world

The world tells the clients about its players with packets only. `Observed` folds
the packets addressed to a client `s`, read from their bytes, from the last
`SpawnPlayers` on: the listed records, then `AddPlayer`, `RemovePlayer` and
`MovePlayer`. The result is the map of all other players to their positions, at
every point of a tick.

Positions are compared as they travel, as the bits of two doubles.

* `readRecords_recordBytes`: the records of a `SpawnPlayers` packet, read back.
* `Tracks`: every client's fold is the world without its own player;
  `tracks_processInput`, `tracks_visit` and `tracks_tick` are the steps.
* `log_determines_world`: after every run of ticks the fold is the world.
-/

namespace EndlessPeak

open Lib

/-! ## Reading packets -/

/-- The bits of `x` and `y`. -/
abbrev Position := UInt64 × UInt64

/-- The eight bytes at `offset`, in network order. -/
def readUInt64 (offset : ℕ) (body : List UInt8) : UInt64 :=
  UInt64.ofNat (beNat ((body.drop offset).take 8))

/-- The id at the start of a body. -/
def readId (body : List UInt8) : UInt64 := readUInt64 0 body

/-- The position that follows the id. -/
def readPosition (body : List UInt8) : Position := (readUInt64 8 body, readUInt64 16 body)

/-- `count` records of 26 bytes: id, position, width and height. -/
def readRecords : ℕ → List UInt8 → List (UInt64 × Position)
  | 0, _ => []
  | count + 1, body => (readId body, readPosition body) :: readRecords count (body.drop 26)

/-- The records of a `SpawnPlayers` packet, after their count. -/
def readSpawn (body : List UInt8) : List (UInt64 × Position) :=
  readRecords (readUInt64 0 body).toNat (body.drop 8)

/-! ## The fold of a client -/

/-- The players a client knows of. -/
abbrev View := UInt64 → Option Position

/-- A `SpawnPlayers` packet addressed to the client `s`. -/
def IsSpawnFor (s : UInt64) (p : ServerPacket) : Prop :=
  p.opcode = some .spawnPlayers ∧ p.AddressedTo s

instance (s : UInt64) (p : ServerPacket) : Decidable (IsSpawnFor s p) :=
  inferInstanceAs (Decidable (_ ∧ _))

/-- What the client `s` does with a packet after its `SpawnPlayers`. -/
def observe (s : UInt64) (view : View) (p : ServerPacket) : View :=
  if p.AddressedTo s then
    let body := p.packet.body.getD []
    match p.opcode with
    | some .addPlayer => Function.update view (readId body) (some (readPosition body))
    | some .removePlayer => Function.update view (readId body) none
    | some .movePlayer =>
      if view (readId body) = none then view
      else Function.update view (readId body) (some (readPosition body))
    | _ => view
  else view

/-- Folding `log` from the last `SpawnPlayers` packet for `s` on gives `view`. -/
def Observed (s : UInt64) (log : List ServerPacket) (view : View) : Prop :=
  ∃ before spawn after, log = before ++ spawn :: after ∧ IsSpawnFor s spawn ∧
    (∀ p ∈ after, ¬ IsSpawnFor s p) ∧
    after.foldl (observe s) (fun id => (readSpawn (spawn.packet.body.getD [])).lookup id) = view

variable {s id : UInt64} {log : List ServerPacket} {p : ServerPacket} {view : View}

theorem Observed.snoc (h : Observed s log view) (hp : ¬ IsSpawnFor s p) :
    Observed s (log ++ [p]) (observe s view p) := by
  obtain ⟨before, spawn, after, rfl, hspawn, hafter, rfl⟩ := h
  refine ⟨before, spawn, after ++ [p], by simp, hspawn, ?_, by simp [List.foldl_append]⟩
  simp only [List.mem_append, List.mem_singleton]
  rintro q (hq | rfl)
  · exact hafter q hq
  · exact hp

theorem Observed.snoc_other (h : Observed s log view) (hp : ¬ p.AddressedTo s) :
    Observed s (log ++ [p]) view := by
  have hsnoc := h.snoc (p := p) fun hspawn => hp hspawn.2
  simpa [observe, hp] using hsnoc

/-- A `SpawnPlayers` packet for `s` starts the fold anew. -/
theorem Observed.spawn (log : List ServerPacket) (hp : IsSpawnFor s p) :
    Observed s (log ++ [p]) fun id => (readSpawn (p.packet.body.getD [])).lookup id :=
  ⟨log, p, [], rfl, hp, by simp, rfl⟩

/-! ## What the packets of the world say -/

/-- The position of a player as it travels. -/
def positionOf (platform : Platform) (player : Player) : Position :=
  (platform.doubleBits player.x, platform.doubleBits player.y)

theorem readUInt64_append (before after : List UInt8) (v : UInt64) :
    readUInt64 before.length (before ++ (beBytes 8 v.toNat ++ after)) = v := by
  have hlt : v.toNat < 256 ^ 8 := v.toNat_lt
  rw [readUInt64, List.drop_left, List.take_left' (by simp), beNat_beBytes, Nat.mod_eq_of_lt hlt,
    UInt64.ofNat_toNat]

theorem readId_append (v : UInt64) (rest : List UInt8) :
    readId (beBytes 8 v.toNat ++ rest) = v :=
  readUInt64_append [] rest v

theorem readPosition_append (v x y : UInt64) (rest : List UInt8) :
    readPosition (beBytes 8 v.toNat ++ (beBytes 8 x.toNat ++ (beBytes 8 y.toNat ++ rest))) =
      (x, y) := by
  have hx := readUInt64_append (beBytes 8 v.toNat) (beBytes 8 y.toNat ++ rest) x
  have hy := readUInt64_append (beBytes 8 v.toNat ++ beBytes 8 x.toNat) rest y
  simp only [length_beBytes, List.length_append, List.append_assoc] at hx hy
  rw [readPosition, hx, hy]

variable {platform : Platform} {config : GameConfig} {player : Player}

theorem read_recordBytes (platform : Platform) (player : Player) (rest : List UInt8) :
    readId (World.recordBytes platform player ++ rest) = player.id ∧
      readPosition (World.recordBytes platform player ++ rest) = positionOf platform player := by
  simp only [World.recordBytes, List.append_assoc]
  exact ⟨readId_append _ _, readPosition_append _ _ _ _⟩

/-- The records that `AddPlayer` writes, read back. -/
theorem readRecords_recordBytes (players : List Player) :
    readRecords players.length (players.flatMap (World.recordBytes platform)) =
      players.map fun player => (player.id, positionOf platform player) := by
  induction players with
  | nil => rfl
  | cons player players ih =>
    have hlen : (World.recordBytes platform player).length = 26 := by
      simp [World.recordBytes]
    have hread := read_recordBytes platform player
      (players.flatMap (World.recordBytes platform))
    rw [List.flatMap_cons, List.length_cons, readRecords, List.drop_left' hlen, ih, hread.1,
      hread.2]
    rfl

/-- The packet that `RemovePlayer` pushes. -/
def removalPacket (id : UInt64) : ServerPacket := { packet := removePlayerPacket id, id := id }

section Packets

variable (platform : Platform) (player : Player) (id : UInt64)

@[simp] theorem createPacket_opcode :
    (createPacket platform player).opcode = some .createPlayer := by
  simp [createPacket, createPlayerPacket, ServerPacket.opcode]

@[simp] theorem addPacket_opcode : (addPacket platform player).opcode = some .addPlayer := by
  simp [addPacket, addPlayerPacket, ServerPacket.opcode]

@[simp] theorem movePacket_opcode : (movePacket platform player).opcode = some .movePlayer := by
  simp [movePacket, movePlayerPacket, ServerPacket.opcode]

@[simp] theorem removalPacket_opcode : (removalPacket id).opcode = some .removePlayer := by
  simp [removalPacket, removePlayerPacket, ServerPacket.opcode]

theorem spawnPacket_opcode {packet : NetPacket}
    (h : packet.getHeadOpcode = toUInt16 .spawnPlayers) :
    (spawnPacket packet id).opcode = some .spawnPlayers := by
  simp [spawnPacket, NetPacket.move, ServerPacket.opcode, h]

theorem createPacket_body : (createPacket platform player).packet.body =
    some (World.recordBytes platform player) := by
  simp [createPacket, createPlayerPacket, World.recordBytes, PodType.repr, beBytes]

theorem addPacket_body : (addPacket platform player).packet.body =
    some (World.recordBytes platform player) := by
  simp [addPacket, addPlayerPacket, World.recordBytes, PodType.repr, beBytes]

theorem movePacket_body : (movePacket platform player).packet.body =
    some (beBytes 8 player.id.toNat ++ (beBytes 8 (platform.doubleBits player.x).toNat ++
      (beBytes 8 (platform.doubleBits player.y).toNat ++ []))) := by
  simp [movePacket, movePlayerPacket, PodType.repr, beBytes]

theorem removalPacket_body : (removalPacket id).packet.body = some (beBytes 8 id.toNat ++ []) := by
  simp [removalPacket, removePlayerPacket, PodType.repr, beBytes]

end Packets

theorem observe_addPacket (h : (addPacket platform player).AddressedTo s) :
    observe s view (addPacket platform player) =
      Function.update view player.id (some (positionOf platform player)) := by
  obtain ⟨hid, hpos⟩ := read_recordBytes platform player []
  rw [List.append_nil] at hid hpos
  simp only [observe, h, if_true, addPacket_opcode, addPacket_body, Option.getD_some, hid, hpos]

theorem observe_movePacket : observe s view (movePacket platform player) =
    if view player.id = none then view
    else Function.update view player.id (some (positionOf platform player)) := by
  have haddr : (movePacket platform player).AddressedTo s := trivial
  simp only [observe, haddr, if_true, movePacket_opcode, movePacket_body, Option.getD_some,
    readId_append, readPosition_append]
  rfl

theorem observe_removalPacket :
    observe s view (removalPacket id) = Function.update view id none := by
  have haddr : (removalPacket id).AddressedTo s := trivial
  simp only [observe, haddr, if_true, removalPacket_opcode, removalPacket_body, Option.getD_some,
    readId_append]

/-! ## The snapshot -/

theorem length_others (items : List (Sigma fun _ : UInt64 => Option Player))
    (hnodup : items.NodupKeys) (hnull : ∀ item ∈ items, item.1 ≠ id → item.2 ≠ none) :
    (World.others id items).length + (if id ∈ items.keys then 1 else 0) = items.length := by
  induction items with
  | nil => rfl
  | cons item items ih =>
    obtain ⟨hfresh, hnodup'⟩ := List.nodupKeys_cons.mp hnodup
    have hrec := ih hnodup' fun other hother => hnull other (List.mem_cons_of_mem _ hother)
    by_cases hid : item.1 = id
    · rw [hid] at hfresh
      simp only [hfresh, if_false, add_zero] at hrec
      simpa [World.others, hid] using hrec
    · obtain ⟨p, hp⟩ := Option.ne_none_iff_exists'.mp (hnull item List.mem_cons_self hid)
      have hne : id ≠ item.1 := fun h => hid h.symm
      have hothers : World.others id (item :: items) = p :: World.others id items := by
        simp [World.others, hid, hp]
      simp only [hothers, List.length_cons, List.keys_cons, List.mem_cons, hne, false_or]
      omega

/-- The records of all players but `id`, read as a map. -/
theorem lookup_others (items : List (Sigma fun _ : UInt64 => Option Player))
    (hnodup : items.NodupKeys) (hids : ∀ item ∈ items, ∀ p, item.2 = some p → p.id = item.1)
    (j : UInt64) :
    ((World.others id items).map fun player => (player.id, positionOf platform player)).lookup j =
      if j = id then none else ((items.dlookup j).join).map (positionOf platform) := by
  induction items with
  | nil => simp [World.others]
  | cons item items ih =>
    obtain ⟨k, v⟩ := item
    obtain ⟨hfresh, hnodup'⟩ := List.nodupKeys_cons.mp hnodup
    have hrec := ih hnodup' fun other hother => hids other (List.mem_cons_of_mem _ hother)
    have hskip : k = id ∨ v = none → World.others id (⟨k, v⟩ :: items) = World.others id items := by
      rintro (h | h) <;> simp [World.others, h]
    have htake : ∀ p, k ≠ id → v = some p →
        World.others id (⟨k, v⟩ :: items) = p :: World.others id items := by
      intro p hk hv
      simp [World.others, hk, hv]
    by_cases hj : j = k
    · subst hj
      have hrest : items.dlookup j = none := List.dlookup_eq_none.mpr hfresh
      rw [hrest] at hrec
      by_cases hid : j = id
      · rw [hskip (.inl hid), hrec, if_pos hid, if_pos hid]
      · rcases v with _ | p
        · rw [hskip (.inr rfl), hrec, List.dlookup_cons_eq]
          rfl
        · have hp : p.id = j := hids ⟨j, some p⟩ List.mem_cons_self p rfl
          rw [htake p hid rfl]
          simp [hp, hid]
    · rw [List.dlookup_cons_ne _ _ hj]
      by_cases hid : k = id
      · rw [hskip (.inl hid), hrec]
      · rcases v with _ | p
        · rw [hskip (.inr rfl), hrec]
        · have hp : p.id = k := hids ⟨k, some p⟩ List.mem_cons_self p rfl
          have hjk : (j == k) = false := by simpa using hj
          rw [htake p hid rfl, ← hrec, List.map_cons, List.lookup_cons, hp, hjk]

theorem length_entries_le (players : PlayerMap) : players.entries.length ≤ 2 ^ 64 := by
  have hnodup : (players.keys.map UInt64.toNat).Nodup :=
    players.keys_nodup.map fun a b h => UInt64.toNat_inj.mp h
  have hsub : players.keys.map UInt64.toNat ⊆ List.range (2 ^ 64) := by
    intro n hn
    obtain ⟨k, -, rfl⟩ := List.mem_map.mp hn
    exact List.mem_range.mpr k.toNat_lt
  have hle := (List.subperm_of_subset hnodup hsub).length_le
  rw [List.length_map, List.length_range] at hle
  simpa [AList.keys, List.keys] using hle

/-- The `SpawnPlayers` packet: the number of the other players and their records, in the
    visiting order. -/
theorem spawnOthers_body_eq {players : PlayerMap} {n : ℕ} {packet : NetPacket}
    (hmem : id ∈ players) (h : spawnOthers platform id (spawnHeader players.entries.length)
      (platform.iterate n players.entries) = some packet) :
    (World.others id (platform.iterate n players.entries)).length < 2 ^ 64 ∧
      packet.body.getD [] =
        beBytes 8 (World.others id (platform.iterate n players.entries)).length ++
          (World.others id (platform.iterate n players.entries)).flatMap
            (World.recordBytes platform) := by
  obtain ⟨hnull, -, hbody⟩ := World.spawnOthers_eq_some _ h
  have hperm := platform.iterate_perm n players.entries
  have hkey : id ∈ (platform.iterate n players.entries).keys :=
    (hperm.map Sigma.fst).mem_iff.mpr hmem
  have hlen := length_others _ (Platform.nodupKeys_iterate players n) hnull
  rw [if_pos hkey, hperm.length_eq] at hlen
  have hbound := length_entries_le players
  have hcount : (UInt64.ofNat (players.entries.length - 1)).toNat =
      (World.others id (platform.iterate n players.entries)).length := by
    rw [UInt64.toNat_ofNat']
    omega
  have hheader : (spawnHeader players.entries.length).body.getD [] =
      beBytes 8 (UInt64.ofNat (players.entries.length - 1)).toNat := by
    simp [spawnHeader, PodType.repr, beBytes]
  refine ⟨by omega, ?_⟩
  rw [hbody, hheader, hcount]

/-- The `SpawnPlayers` packet, read as a map: all players but the new one. -/
theorem lookup_readSpawn {players : PlayerMap} {n : ℕ} {packet : NetPacket} (hmem : id ∈ players)
    (hids : ∀ j p, players.lookup j = some (some p) → p.id = j)
    (h : spawnOthers platform id (spawnHeader players.entries.length)
      (platform.iterate n players.entries) = some packet) (j : UInt64) :
    (readSpawn (packet.body.getD [])).lookup j =
      if j = id then none else ((players.lookup j).join).map (positionOf platform) := by
  obtain ⟨hlt, hbody⟩ := spawnOthers_body_eq hmem h
  have hnodup : (platform.iterate n players.entries).NodupKeys :=
    Platform.nodupKeys_iterate players n
  have hitems : ∀ item ∈ platform.iterate n players.entries, ∀ p, item.2 = some p →
      p.id = item.1 := by
    intro item hitem p hp
    apply hids item.1 p
    rw [← hp]
    exact Platform.mem_iterate.mp hitem
  have hcount : (UInt64.ofNat
      (World.others id (platform.iterate n players.entries)).length).toNat =
        (World.others id (platform.iterate n players.entries)).length := by
    rw [UInt64.toNat_ofNat']
    exact Nat.mod_eq_of_lt hlt
  have hread := readUInt64_append []
    ((World.others id (platform.iterate n players.entries)).flatMap (World.recordBytes platform))
    (UInt64.ofNat (World.others id (platform.iterate n players.entries)).length)
  rw [hcount, List.nil_append, List.length_nil] at hread
  rw [readSpawn, hbody, hread, hcount, List.drop_left' (by simp), readRecords_recordBytes,
    lookup_others _ hnodup hitems, List.perm_dlookup j hnodup (platform.iterate_perm _ _)]
  rfl

/-! ## The world keeps its clients informed -/

/-- The positions of all players but `s`. -/
def worldView (platform : Platform) (s : UInt64) (w : World) : View := fun id =>
  if id = s then none else (w.player? id).map (positionOf platform)

/-- Every player is stored under its id, and every player's client that folds `log`
    knows all the others. -/
structure Tracks (platform : Platform) (log : List ServerPacket) (w : World) : Prop where
  ids : w.All fun id p => p.id = id
  view : ∀ s, w.player? s ≠ none → Observed s (log ++ w.game.outQueue) (worldView platform s w)

variable {w w' : World} {dt : ℚ}

theorem Tracks.of_same (h : Tracks platform log w) (hids : w'.All fun id p => p.id = id)
    (hout : w'.game.outQueue = w.game.outQueue)
    (hpos : ∀ id, (w'.player? id).map (positionOf platform) =
      (w.player? id).map (positionOf platform)) : Tracks platform log w' := by
  refine ⟨hids, ?_⟩
  intro s hs
  have hs0 : w.player? s ≠ none := by
    intro hnone
    have hmap := hpos s
    rw [hnone, Option.map_none, Option.map_eq_none_iff] at hmap
    exact hs hmap
  have hview : worldView platform s w' = worldView platform s w := by
    funext id
    simp [worldView, hpos]
  rw [hout, hview]
  exact h.view s hs0

/-- `RemovePlayer`: every client deletes the player. -/
theorem tracks_removePlayer (h : Tracks platform log w) (id : UInt64) :
    Tracks platform log (w.removePlayer id) := by
  have hplayer := World.player?_removePlayer w id
  refine ⟨World.all_removePlayer h.ids id, ?_⟩
  intro s hs
  rw [hplayer] at hs
  have hne : s ≠ id := fun heq => hs (if_pos heq)
  rw [if_neg hne] at hs
  have hsnoc := (h.view s hs).snoc (p := removalPacket id) (by
    simp [IsSpawnFor])
  rw [observe_removalPacket] at hsnoc
  have hview : worldView platform s (w.removePlayer id) =
      Function.update (worldView platform s w) id none := by
    funext j
    by_cases hj : j = id
    · subst hj
      simp [worldView, hplayer]
    · simp [worldView, hplayer, hj]
  rw [hview]
  simpa [World.removePlayer, removalPacket] using hsnoc

/-- Visiting a player in the loop of `Tick`: every client moves the player. -/
theorem tracks_visit {item : Sigma fun _ : UInt64 => Option Player}
    (h : Tracks platform log w)
    (hvisit : w.visit (update platform config dt) item = some w') : Tracks platform log w' := by
  obtain ⟨p, hp, rfl⟩ := World.visit_eq_some.mp hvisit
  obtain ⟨k, v⟩ := item
  dsimp only at hp ⊢
  have hid : (update platform config dt p).1.id = k := by
    simpa [update, applyGravity] using h.ids k p hp
  generalize hq : (update platform config dt p).1 = q at hid
  have hpackets : (update platform config dt p).2 = [movePacket platform q] := by
    rw [← hq]
    rfl
  rw [hpackets]
  have hplayer : ∀ j, ((w.store k q).pushOut [movePacket platform q]).player? j =
      if j = k then some q else w.player? j := fun j => World.player?_store w k j q
  refine ⟨World.all_store h.ids hid, ?_⟩
  intro s hs
  have hs0 : w.player? s ≠ none := by
    rw [hplayer] at hs
    split_ifs at hs with heq
    · rw [heq, hp]
      simp
    · exact hs
  have hsnoc := (h.view s hs0).snoc (p := movePacket platform q) (by
    simp [IsSpawnFor])
  rw [observe_movePacket, hid] at hsnoc
  have hview : worldView platform s ((w.store k q).pushOut [movePacket platform q]) =
      if worldView platform s w k = none then worldView platform s w
      else Function.update (worldView platform s w) k (some (positionOf platform q)) := by
    funext j
    by_cases hown : k = s
    · -- the client's own player is not listed
      subst hown
      by_cases hj : j = k
      · simp [worldView, hj]
      · simp [worldView, hplayer, hj]
    · by_cases hj : j = k
      · subst hj
        simp [worldView, hplayer, hown, hp]
      · simp [worldView, hplayer, hown, hj, hp]
  rw [hview]
  simpa using hsnoc

/-- `AddPlayer`: the new client gets the snapshot, the others the new player. -/
theorem tracks_addPlayer (h : Tracks platform log w)
    (hadd : w.addPlayer platform player = some w') : Tracks platform log w' := by
  obtain ⟨hnull, hplayers, -, -, packet, hspawn, hout⟩ := World.addPlayer_eq_some hadd
  obtain ⟨-, hop, hbody⟩ := World.spawnOthers_eq_some _ hspawn
  have hplayer := World.player?_addPlayer hadd
  have hids := World.all_addPlayer h.ids rfl hadd
  refine ⟨hids, ?_⟩
  intro s hs
  rw [hout, ← List.append_assoc]
  have hadded : [createPacket platform player, spawnPacket packet player.id,
      addPacket platform player] = [createPacket platform player] ++
        [spawnPacket packet player.id] ++ [addPacket platform player] := rfl
  rw [hadded, ← List.append_assoc, ← List.append_assoc]
  by_cases hown : s = player.id
  · subst hown
    -- the snapshot starts the fold; the last packet is for the others
    have hspawnFor : IsSpawnFor player.id (spawnPacket packet player.id) := by
      have hopcode : packet.getHeadOpcode = toUInt16 .spawnPlayers := by
        rw [hop]
        simp [spawnHeader]
      exact ⟨by simp [spawnPacket, NetPacket.move, ServerPacket.opcode, hopcode], rfl⟩
    have hfold := (Observed.spawn (log ++ w.game.outQueue ++ [createPacket platform player])
      hspawnFor).snoc_other (p := addPacket platform player) fun hne => hne rfl
    have hview : worldView platform player.id w' =
        fun j => (readSpawn (packet.body.getD [])).lookup j := by
      funext j
      have hmem : player.id ∈ (w.store player.id player).players := by simp [World.store]
      rw [lookup_readSpawn hmem ?_ hspawn, worldView, World.player?, hplayers]
      intro k q hq
      rw [← hplayers] at hq
      exact hids k q (World.player?_eq_some.mpr hq)
    rw [hview]
    exact hfold
  · rw [hplayer, if_neg hown] at hs
    have hfold := (((h.view s hs).snoc_other (p := createPacket platform player) fun heq =>
      hown heq).snoc_other (p := spawnPacket packet player.id) fun heq => hown heq).snoc
        (p := addPacket platform player) (by
          simp [IsSpawnFor])
    rw [observe_addPacket hown] at hfold
    have hview : worldView platform s w' =
        Function.update (worldView platform s w) player.id (some (positionOf platform player)) := by
      funext j
      by_cases hj : j = player.id
      · subst hj
        simp [worldView, hplayer, Ne.symm hown]
      · simp [worldView, hplayer, hj]
    rw [hview]
    exact hfold

/-! ## Ticks and runs -/

/-- The input phase keeps the clients informed, packet by packet. -/
theorem tracks_processInput (h : Tracks platform log w)
    (hstep : w.processInput platform config dt p = some w') : Tracks platform log w' := by
  have htouch : Tracks platform log (w.touch p.id) :=
    h.of_same (fun j q hq => h.ids j q (by simpa using hq)) (by simp) (by simp)
  rcases World.processInput_cases hstep with
    ⟨-, hadd⟩ | ⟨-, rfl⟩ | ⟨o, q, -, -, hq, rfl⟩ | ⟨-, rfl⟩
  · exact tracks_addPlayer htouch hadd
  · exact tracks_removePlayer htouch p.id
  · refine htouch.of_same (World.all_store htouch.ids ?_) (by simp) ?_
    · rw [World.command_id]
      exact h.ids _ q hq
    · intro j
      rw [World.player?_store, World.player?_touch]
      split_ifs with hj
      · rw [hj, hq]
        simp [positionOf]
      · rfl
  · exact htouch

theorem tracks_reset (h : Tracks platform log w)
    (hloop : w.forEach platform (fun player => (player.setVel 0 player.velY, [])) = some w') :
    Tracks platform log w' := by
  refine h.of_same (World.all_forEach (fun _ p _ hp => hp) h.ids hloop)
    (World.forEach_outQueue_of_silent (fun _ => rfl) hloop) ?_
  intro id
  rw [World.player?_forEach hloop, Option.map_map]
  rfl

/-- A tick keeps the clients informed; its packets are appended to the log. -/
theorem tracks_tick (net : Subsystem) {net' : Subsystem} (h : Tracks platform net.outQueue w)
    (htick : w.tick platform config dt net = some (w', net')) :
    Tracks platform net'.outQueue w' := by
  obtain ⟨w2, w3, hin, hloop, rfl, rfl⟩ := World.tick_eq_some.mp htick
  obtain ⟨w1, hreset, hfold⟩ := World.inputPhase_eq_some.mp hin
  have h0 : Tracks platform net.outQueue
      { w with game := { w.game with inQueue := net.inQueue } } := ⟨h.ids, h.view⟩
  have h1 := tracks_reset h0 hreset
  have h1' : Tracks platform net.outQueue { w1 with game := { w1.game with inQueue := [] } } :=
    ⟨h1.ids, h1.view⟩
  have h2 : Tracks platform net.outQueue w2 := (run_iff_foldlM.mpr hfold).invariant h1'
    fun _ _ _ hv hstep => tracks_processInput hv hstep
  have h2' : Tracks platform net.outQueue { w2 with iterations := w2.iterations + 1 } :=
    ⟨h2.ids, h2.view⟩
  have h3 : Tracks platform net.outQueue w3 := (run_iff_foldlM.mpr hloop).invariant h2'
    fun _ _ _ hv hstep => tracks_visit hv hstep
  refine ⟨h3.ids, ?_⟩
  intro s hs
  have hview := h3.view s hs
  simp only [List.append_nil]
  exact hview

/-- After every run of ticks that ends without a null dereference, folding the packets
    addressed to a player's client from its last `SpawnPlayers` on gives the other
    players with their current positions, whatever the inputs and whatever the order
    in which the player map is visited. -/
theorem log_determines_world {turns : List Turn} {st : World × Subsystem}
    (h : GameRun platform config turns st) {s : UInt64} (hs : s ∈ st.1.players) :
    Observed s st.2.outQueue
      fun id => if id = s then none else (st.1.player? id).map (positionOf platform) := by
  have hinit : Tracks platform [] {} :=
    ⟨by simp [World.All, World.player?], by simp [World.player?]⟩
  have htracks : Tracks platform st.2.outQueue st.1 ∧ st.1.game.outQueue = [] := by
    refine h.invariant (I := fun st => Tracks platform st.2.outQueue st.1 ∧
      st.1.game.outQueue = []) ⟨hinit, rfl⟩ ?_
    rintro ⟨w, net⟩ turn ⟨w', net'⟩ ⟨hw, -⟩ hstep
    have htick : w.tick platform config turn.dt
        { net with inQueue := net.inQueue ++ turn.inputs } = some (w', net') := hstep
    refine ⟨tracks_tick { net with inQueue := net.inQueue ++ turn.inputs } ⟨hw.ids, hw.view⟩ htick,
      ?_⟩
    obtain ⟨_, _, -, -, rfl, -⟩ := World.tick_eq_some.mp htick
    rfl
  obtain ⟨p, hp⟩ := Option.isSome_iff_exists.mp (AList.lookup_isSome.mpr hs)
  obtain ⟨q, rfl, -⟩ := game_sound h s p hp
  have hview := htracks.1.view s (by simp [World.player?, hp])
  rw [htracks.2, List.append_nil] at hview
  exact hview

/-- Two players, of which the second walks while the first listens. -/
theorem log_determines_world_room : ∃ st, GameRun .x86 .room
      [⟨1 / 10, [.ofOpcode .createPlayer 0, .ofOpcode .createPlayer 1]⟩,
        ⟨1 / 10, [.ofOpcode .moveRight 1]⟩] st ∧
    Observed 0 st.2.outQueue
      fun id => if id = 0 then none else (st.1.player? id).map (positionOf .x86) := by
  have heval : ((([⟨1 / 10, [.ofOpcode .createPlayer 0, .ofOpcode .createPlayer 1]⟩,
      ⟨1 / 10, [.ofOpcode .moveRight 1]⟩] : List Turn).foldlM (gameStep .x86 .room)
        ({}, {})).map fun st => (st.1.players.lookup 0).isSome) = some true := by decide +kernel
  obtain ⟨st, hst, hs⟩ := Option.map_eq_some_iff.mp heval
  have hrun := run_iff_foldlM.mpr hst
  exact ⟨st, hrun, log_determines_world hrun (AList.lookup_isSome.mp hs)⟩

end EndlessPeak
