import EndlessPeak.Game.Introductions

/-!
# The snapshot that a new player is sent

`AddPlayer` writes the number of players but one, and then a record for every entry with
another key. The two agree for every map, whatever the order of the loop, because the key
of the new player has just been inserted or overwritten.

* `SpawnEntry.read_bytes`, `parseSpawn_eq`: the format of the packet.
* `addPlayer_snapshot`: the packet parses, in one way only, as the records of the other
  players, and no other entry of the map changes.
-/

namespace EndlessPeak

open Lib

/-! ## The format -/

/-- One record: id, position, width and height, the position as bits of doubles. -/
structure SpawnEntry where
  id : UInt64
  x : UInt64
  y : UInt64
  width : UInt8
  height : UInt8
  deriving DecidableEq, Repr

namespace SpawnEntry

/-- The 26 bytes of a record, in network order. -/
def bytes (entry : SpawnEntry) : List UInt8 :=
  beBytes 8 entry.id.toNat ++ beBytes 8 entry.x.toNat ++ beBytes 8 entry.y.toNat ++
    beBytes 1 entry.width.toNat ++ beBytes 1 entry.height.toNat

/-- The byte at `offset`. -/
def readUInt8 (offset : ℕ) (body : List UInt8) : UInt8 :=
  UInt8.ofNat (beNat ((body.drop offset).take 1))

/-- A record read from 26 bytes. -/
def read (bytes : List UInt8) : SpawnEntry where
  id := readUInt64 0 bytes
  x := readUInt64 8 bytes
  y := readUInt64 16 bytes
  width := readUInt8 24 bytes
  height := readUInt8 25 bytes

@[simp] theorem length_bytes (entry : SpawnEntry) : entry.bytes.length = 26 := by
  simp [bytes]

theorem readUInt8_append (before after : List UInt8) (v : UInt8) :
    readUInt8 before.length (before ++ (beBytes 1 v.toNat ++ after)) = v := by
  have hlt : v.toNat < 256 ^ 1 := v.toNat_lt
  rw [readUInt8, List.drop_left, List.take_left' (by simp), beNat_beBytes, Nat.mod_eq_of_lt hlt,
    UInt8.ofNat_toNat]

theorem read_bytes (entry : SpawnEntry) : read entry.bytes = entry := by
  obtain ⟨id, x, y, width, height⟩ := entry
  have hid := readUInt64_append [] (beBytes 8 x.toNat ++ (beBytes 8 y.toNat ++
    (beBytes 1 width.toNat ++ beBytes 1 height.toNat))) id
  have hx := readUInt64_append (beBytes 8 id.toNat) (beBytes 8 y.toNat ++
    (beBytes 1 width.toNat ++ beBytes 1 height.toNat)) x
  have hy := readUInt64_append (beBytes 8 id.toNat ++ beBytes 8 x.toNat)
    (beBytes 1 width.toNat ++ beBytes 1 height.toNat) y
  have hwidth := readUInt8_append (beBytes 8 id.toNat ++ beBytes 8 x.toNat ++ beBytes 8 y.toNat)
    (beBytes 1 height.toNat) width
  have hheight := readUInt8_append (beBytes 8 id.toNat ++ beBytes 8 x.toNat ++ beBytes 8 y.toNat ++
    beBytes 1 width.toNat) [] height
  simp only [List.nil_append, List.length_nil, List.length_append, length_beBytes,
    List.append_assoc, List.append_nil] at hid hx hy hwidth hheight
  simp only [read, bytes, List.append_assoc, hid, hx, hy, hwidth, hheight]

end SpawnEntry

/-- A count of eight bytes, that many records, and no bytes left over. -/
def parseSpawn (body : List UInt8) : Option (List SpawnEntry) :=
  if body.length < 8 then none
  else parseRecords 26 SpawnEntry.read (readUInt64 0 body).toNat (body.drop 8)

/-- `body` is the number of `records` and the records themselves. -/
def IsSnapshot (records : List SpawnEntry) (body : List UInt8) : Prop :=
  records.length < 2 ^ 64 ∧
    body = beBytes 8 records.length ++ records.flatMap SpawnEntry.bytes

/-- A snapshot is parsed back. -/
theorem parseSpawn_eq {records : List SpawnEntry} {body : List UInt8}
    (h : IsSnapshot records body) : parseSpawn body = some records := by
  obtain ⟨hlt, rfl⟩ := h
  have hcount : (UInt64.ofNat records.length).toNat = records.length := by
    rw [UInt64.toNat_ofNat']
    exact Nat.mod_eq_of_lt hlt
  have hread := readUInt64_append [] (records.flatMap SpawnEntry.bytes)
    (UInt64.ofNat records.length)
  rw [hcount, List.nil_append, List.length_nil] at hread
  unfold parseSpawn
  rw [if_neg (by simp), hread, hcount, List.drop_left' (by simp)]
  exact parseRecords_flatMap SpawnEntry.length_bytes SpawnEntry.read_bytes records

/-- So it is the snapshot of one list of records only. -/
theorem IsSnapshot.unique {records records' : List SpawnEntry} {body : List UInt8}
    (h : IsSnapshot records body) (h' : IsSnapshot records' body) : records' = records := by
  have heq := (parseSpawn_eq h').symm.trans (parseSpawn_eq h)
  exact Option.some_inj.mp heq

/-! ## The packet of `AddPlayer` -/

/-- The record of a player. -/
def Player.spawnEntry (platform : Platform) (player : Player) : SpawnEntry where
  id := player.id
  x := platform.doubleBits player.x
  y := platform.doubleBits player.y
  width := player.width
  height := player.height

theorem recordBytes_eq (platform : Platform) (player : Player) :
    World.recordBytes platform player = (player.spawnEntry platform).bytes := rfl

/-- The packet `spawn` is a snapshot of the players of `w` other than `id`: its body parses
    as their records, each once, and in no other way. -/
structure SnapshotOf (platform : Platform) (w : World) (id : UInt64) (spawn : ServerPacket) :
    Prop where
  opcode : spawn.opcode = some .spawnPlayers
  body : ∃ body records, spawn.packet.body = some body ∧ IsSnapshot records body ∧
    parseSpawn body = some records ∧ (∀ records', IsSnapshot records' body → records' = records) ∧
    records.Perm ((World.others id w.players.entries).map (Player.spawnEntry platform))

/-- For every map without null entries, every player and every order of the loop: `AddPlayer`
    pushes a snapshot of the players of the updated map other than the added one, and leaves
    the other entries as they were. -/
theorem addPlayer_snapshot (platform : Platform) {w : World} (player : Player)
    (hnull : ∀ id, w.players.lookup id ≠ some none) :
    ∃ w' spawn, w.addPlayer platform player = some w' ∧
      w'.game.outQueue = w.game.outQueue ++
        [createPacket platform player, spawn, addPacket platform player] ∧
      SnapshotOf platform w' player.id spawn ∧
      w'.players.lookup player.id = some (some player) ∧
      ∀ j, j ≠ player.id → w'.players.lookup j = w.players.lookup j := by
  obtain ⟨w', hadd⟩ := World.addPlayer_isSome platform player fun j _ => hnull j
  obtain ⟨-, hplayers, -, -, packet, hspawn, hout⟩ := World.addPlayer_eq_some hadd
  have hlookup := World.lookup_store w player.id
  have hop : packet.getHeadOpcode = toUInt16 .spawnPlayers := by
    rw [(World.spawnOthers_eq_some _ hspawn).2.1]
    simp [spawnHeader]
  refine ⟨w', _, hadd, hout, ⟨spawnPacket_opcode _ hop, ?_⟩, ?_, ?_⟩
  · have hmem : player.id ∈ (w.store player.id player).players := by
      rw [← AList.lookup_isSome, hlookup, if_pos rfl]
      rfl
    obtain ⟨hlt, hbody⟩ := spawnOthers_body_eq hmem hspawn
    have hperm := platform.iterate_perm w.iterations (w.store player.id player).players.entries
    generalize platform.iterate w.iterations (w.store player.id player).players.entries = items
      at hlt hbody hperm
    have hsnapshot : IsSnapshot ((World.others player.id items).map (Player.spawnEntry platform))
        (packet.body.getD []) := by
      refine ⟨by simpa using hlt, ?_⟩
      rw [hbody, List.length_map, List.flatMap_map, funext (recordBytes_eq platform)]
    refine ⟨packet.body.getD [], _, ?_, hsnapshot, parseSpawn_eq hsnapshot,
      fun records' h' => hsnapshot.unique h', ?_⟩
    · obtain ⟨body, hsome⟩ := Option.ne_none_iff_exists'.mp (spawnOthers_body hspawn)
      rw [hsome, Option.getD_some]
      exact hsome
    · rw [hplayers]
      exact (hperm.filterMap _).map _
  · rw [hplayers, hlookup, if_pos rfl]
  · intro j hj
    rw [hplayers, hlookup, if_neg hj]

/-- A second player enters the room. -/
theorem addPlayer_snapshot_room :
    ∃ w' spawn, World.addPlayer .x86 (World.store {} 3 (GameConfig.room.newPlayer 3))
        (GameConfig.room.newPlayer 5) = some w' ∧ SnapshotOf .x86 w' 5 spawn := by
  have hnull : ∀ id,
      (World.store {} 3 (GameConfig.room.newPlayer 3)).players.lookup id ≠ some none := by
    intro id
    rw [World.lookup_store]
    split_ifs <;> simp
  obtain ⟨w', spawn, hadd, -, hspawn, -⟩ :=
    addPlayer_snapshot .x86 (GameConfig.room.newPlayer 5) hnull
  exact ⟨w', spawn, hadd, hspawn⟩

end EndlessPeak
