import Mathlib.Data.List.Dedup
import EndlessPeak.Game.NullSafety
import EndlessPeak.Net.Codec

/-!
# Whether the server keeps to its own limits

`IsValidHeader` accepts a payload of less than `kMaxPayloadSize` bytes. It is checked
for what a session receives only. All packets of the world have bodies of 8, 24 or 26
bytes, except for `SpawnPlayers`: it has one record of 26 bytes for every other
player, so that four others fit and five do not.

* `NetPacket.KeepsLimits`: the framer of the server itself would take the packet.
* `wellFramed_shl`, `sized_spawnOthers`: the headers of what the world builds.
* `limits_processInput`, `limits_tick`: what a step pushes, and when it keeps the limits.
* `limits_iff`: all packets of a run keep the limits exactly if no player is created
  next to more than four others.
* `six_players_break_limits`: six clients are enough.
-/

namespace EndlessPeak

open Lib

/-! ## One packet -/

/-- The header is valid, its size is the length of the body, and the framer of any
    session decodes the bytes of the packet to the same opcode and body. -/
def NetPacket.KeepsLimits (p : NetPacket) : Prop :=
  p.isValidHeader = true ∧ p.getHeadSize.toNat = (p.body.getD []).length ∧
    ∀ id, Delivers id p.makeBuffer [p]

theorem NetPacket.WellFramed.keepsLimits {p : NetPacket} (h : p.WellFramed) : p.KeepsLimits :=
  ⟨h.valid, h.size, fun id => delivers_makeBuffer id h⟩

theorem NetPacket.KeepsLimits.length_lt {p : NetPacket} (h : p.KeepsLimits) :
    (p.body.getD []).length < 128 := by
  rw [← h.2.1]
  exact Reader.isValidHeader_size h.1

/-- A header size that was set from the body is right as long as the body is short. -/
theorem wellFramed_of_size {p : NetPacket} (hbody : p.body ≠ none)
    (hop : p.getHeadOpcode < kMaxOpcode)
    (hsize : p.getHeadSize = UInt32.ofNat (p.body.getD []).length)
    (hlen : (p.body.getD []).length < 128) : p.WellFramed := by
  have hsize' : p.getHeadSize.toNat = (p.body.getD []).length := by
    rw [hsize, UInt32.toNat_ofNat']
    omega
  refine ⟨hbody, ?_, hsize'⟩
  simp only [NetPacket.isValidHeader, Bool.and_eq_true, decide_eq_true_eq]
  refine ⟨hop, ?_⟩
  rw [UInt32.lt_iff_toNat_lt, hsize']
  exact hlen

theorem wellFramed_shl {T : Type} [PodType T] {p : NetPacket} {v : T}
    (hop : p.getHeadOpcode < kMaxOpcode)
    (hlen : (p.body.getD []).length + (PodType.repr v).length < 128) : (p <<< v).WellFramed := by
  apply wellFramed_of_size
  · simp
  · simpa using hop
  · exact NetPacket.shl_getHeadSize p v
  · simpa using hlen

section Packets

variable (platform : Platform) (player : Player) (id : UInt64)

theorem wellFramed_createPacket : (createPacket platform player).packet.WellFramed := by
  apply wellFramed_shl
  · simp [toUInt16, kMaxOpcode]
  · simp [PodType.repr]

theorem wellFramed_addPacket : (addPacket platform player).packet.WellFramed := by
  apply wellFramed_shl
  · simp [toUInt16, kMaxOpcode]
  · simp [PodType.repr]

theorem wellFramed_movePacket : (movePacket platform player).packet.WellFramed := by
  apply wellFramed_shl
  · simp [toUInt16, kMaxOpcode]
  · simp [PodType.repr]

theorem wellFramed_removePlayerPacket : (removePlayerPacket id).WellFramed := by
  apply wellFramed_shl
  · simp [toUInt16, kMaxOpcode]
  · simp [PodType.repr]

end Packets

/-! ## The snapshot -/

variable {platform : Platform} {config : GameConfig} {dt : ℚ} {id : UInt64} {w w' : World}
  {packet packet' : NetPacket} {p : ServerPacket} {history : List ServerPacket}

/-- The body and the header size of a packet fit together. -/
def NetPacket.Sized (p : NetPacket) : Prop :=
  p.body ≠ none ∧ p.getHeadSize = UInt32.ofNat (p.body.getD []).length

theorem sized_shl {T : Type} [PodType T] (p : NetPacket) (v : T) : (p <<< v).Sized :=
  ⟨by simp, NetPacket.shl_getHeadSize p v⟩

/-- The loop over the other players keeps the header size up to date. -/
theorem sized_spawnOthers (items : List (Sigma fun _ : UInt64 => Option Player))
    (hsized : packet.Sized) (h : spawnOthers platform id packet items = some packet') :
    packet'.Sized := by
  refine (run_iff_foldlM.mpr h).invariant (I := NetPacket.Sized) hsized ?_
  intro packet1 item packet2 hsized hstep
  simp only [stepRel] at hstep
  split_ifs at hstep with hid
  · obtain ⟨player, -, rfl⟩ := Option.map_eq_some_iff.mp hstep
    exact sized_shl _ _
  · cases hstep
    exact hsized

theorem length_others_keys (items : List (Sigma fun _ : UInt64 => Option Player))
    (hnull : ∀ item ∈ items, item.1 ≠ id → item.2 ≠ none) :
    (World.others id items).length = (items.keys.filter fun j => j ≠ id).length := by
  induction items with
  | nil => rfl
  | cons item items ih =>
    have hrec := ih fun other hother => hnull other (List.mem_cons_of_mem _ hother)
    by_cases hid : item.1 = id
    · simpa [World.others, hid] using hrec
    · obtain ⟨player, hplayer⟩ := Option.ne_none_iff_exists'.mp (hnull item List.mem_cons_self hid)
      have hothers : World.others id (item :: items) = player :: World.others id items := by
        simp [World.others, hid, hplayer]
      rw [hothers, List.length_cons, hrec]
      simp [hid]

/-- The live ids other than `id`. -/
def liveOthers (history : List ServerPacket) (id : UInt64) : List UInt64 :=
  (history.map ServerPacket.id).dedup.filter fun j => j ≠ id ∧ Live history j

theorem mem_liveOthers {j : UInt64} : j ∈ liveOthers history id ↔ j ≠ id ∧ Live history j := by
  simp only [liveOthers, List.mem_filter, List.mem_dedup, decide_eq_true_eq]
  exact ⟨fun h => h.2, fun h => ⟨mem_ids_of_live h.2, h⟩⟩

theorem length_others_eq {player : Player} {n : ℕ} (hagrees : World.Agrees history w)
    (hnull : ∀ j, j ≠ player.id → w.players.lookup j ≠ some none) :
    (World.others player.id
      (platform.iterate n (w.store player.id player).players.entries)).length =
        (liveOthers history player.id).length := by
  have hlookup : ∀ j, j ≠ player.id →
      (w.store player.id player).players.lookup j = w.players.lookup j := by
    intro j hj
    rw [World.lookup_store, if_neg hj]
  rw [length_others_keys]
  · apply List.Perm.length_eq
    rw [List.perm_ext_iff_of_nodup]
    · intro j
      rw [List.mem_filter, Platform.mem_keys_iterate, mem_liveOthers, decide_eq_true_iff,
        and_comm]
      refine and_congr_right fun hj => ?_
      rw [hlookup j hj, ← hagrees j, World.player?]
      have hne := hnull j hj
      rcases hv : w.players.lookup j with _ | _ | q
      · simp
      · exact absurd hv hne
      · simp
    · exact List.Nodup.filter _ (Platform.nodupKeys_iterate _ n)
    · exact (List.nodup_dedup _).filter _
  · rintro ⟨j, v⟩ hitem hj rfl
    apply hnull j hj
    rw [← hlookup j hj]
    exact Platform.mem_iterate.mp hitem

/-! ## What a step pushes -/

/-- No player is created next to more than four others. -/
def SmallSpawn (history : List ServerPacket) (p : ServerPacket) : Prop :=
  p.opcode = some .createPlayer → (liveOthers history p.id).length ≤ 4

instance (history : List ServerPacket) (p : ServerPacket) : Decidable (SmallSpawn history p) :=
  inferInstanceAs (Decidable (_ → _))

/-- The packets of `AddPlayer` keep the limits exactly if there are at most four other
    players. -/
theorem limits_addPlayer {player : Player} (hagrees : World.Agrees history w)
    (h : w.addPlayer platform player = some w') :
    ∃ new, w'.game.outQueue = w.game.outQueue ++ new ∧
      ((∀ q ∈ new, q.packet.KeepsLimits) ↔ (liveOthers history player.id).length ≤ 4) := by
  obtain ⟨hnull, -, -, -, packet, hspawn, hout⟩ := World.addPlayer_eq_some h
  obtain ⟨-, hop, hbody⟩ := World.spawnOthers_eq_some _ hspawn
  have hsized := sized_spawnOthers _ (sized_shl _ _) hspawn
  have hlen : (packet.body.getD []).length = 8 + 26 * (liveOthers history player.id).length := by
    have hheader : ((spawnHeader (w.store player.id player).players.entries.length).body.getD
        []).length = 8 := by
      simp [spawnHeader, PodType.repr]
    have hrecord : ∀ q, (World.recordBytes platform q).length = 26 := by
      simp [World.recordBytes]
    rw [hbody, List.length_append, hheader, List.length_flatMap]
    simp only [hrecord, List.map_const', List.sum_replicate_nat]
    rw [length_others_eq hagrees hnull, Nat.mul_comm]
  refine ⟨_, hout, ?_⟩
  constructor
  · intro hall
    have hkeeps := hall (spawnPacket packet player.id) (by simp)
    have hlt : (packet.body.getD []).length < 128 := hkeeps.length_lt
    omega
  · intro hfew q hq
    simp only [List.mem_cons, List.not_mem_nil, or_false] at hq
    rcases hq with rfl | rfl | rfl
    · exact (wellFramed_createPacket platform player).keepsLimits
    · have hvalid : packet.getHeadOpcode < kMaxOpcode := by
        rw [hop]
        simp [spawnHeader, toUInt16, kMaxOpcode]
      exact (wellFramed_of_size hsized.1 hvalid hsized.2 (by omega)).keepsLimits
    · exact (wellFramed_addPacket platform player).keepsLimits

theorem limits_processInput (hagrees : World.Agrees history w)
    (h : w.processInput platform config dt p = some w') :
    ∃ new, w'.game.outQueue = w.game.outQueue ++ new ∧
      ((∀ q ∈ new, q.packet.KeepsLimits) ↔ SmallSpawn history p) := by
  have htouch : World.Agrees history (w.touch p.id) := by
    intro j
    rw [World.player?_touch]
    exact hagrees j
  rcases World.processInput_cases h with
    ⟨ho, hadd⟩ | ⟨ho, rfl⟩ | ⟨o, q, ho, hcommand, -, rfl⟩ | ⟨ho, rfl⟩
  · obtain ⟨new, hout, hiff⟩ := limits_addPlayer htouch hadd
    refine ⟨new, by simpa using hout, ?_⟩
    rw [hiff]
    exact ⟨fun hfew _ => hfew, fun hfew => hfew ho⟩
  · refine ⟨[{ packet := removePlayerPacket p.id, id := p.id }], by simp [World.removePlayer], ?_⟩
    refine iff_of_true ?_ fun hc => by simp [ho] at hc
    intro q hq
    rw [List.mem_singleton.mp hq]
    exact (wellFramed_removePlayerPacket p.id).keepsLimits
  · refine ⟨[], by simp, iff_of_true (by simp) ?_⟩
    intro hc
    rw [ho, Option.some_inj] at hc
    simp [hc, World.IsCommand] at hcommand
  · exact ⟨[], by simp, iff_of_true (by simp) fun hc => absurd rfl (ho _ hc).1⟩

theorem limits_foldlM {batch : List ServerPacket} (hagrees : World.Agrees history w)
    (h : batch.foldlM (World.processInput platform config dt) w = some w') :
    ∃ new, w'.game.outQueue = w.game.outQueue ++ new ∧
      ((∀ q ∈ new, q.packet.KeepsLimits) ↔
        EachAfter (fun pre => SmallSpawn (history ++ pre)) batch) := by
  refine ((run_iff_foldlM.mpr h).invariant_trace (I := fun pre v =>
    World.Agrees (history ++ pre) v ∧ ∃ new, v.game.outQueue = w.game.outQueue ++ new ∧
      ((∀ q ∈ new, q.packet.KeepsLimits) ↔
        EachAfter (fun pre => SmallSpawn (history ++ pre)) pre)) ?_ ?_).2
  · exact ⟨by simpa using hagrees, [], by simp, iff_of_true (by simp) EachAfter.nil⟩
  · rintro pre v p v' ⟨hv, new, hout, hiff⟩ hstep
    obtain ⟨new', hout', hiff'⟩ := limits_processInput hv hstep
    refine ⟨?_, new ++ new', by rw [hout', hout, List.append_assoc], ?_⟩
    · rw [← List.append_assoc]
      exact World.agrees_processInput hv hstep
    · rw [EachAfter.snoc_iff, ← hiff, ← hiff']
      simp only [List.mem_append, or_imp, forall_and]

/-- A tick: its batch decides, since the moves of the players keep the limits. -/
theorem limits_tick {net net' : Subsystem} (hagrees : World.Agrees history w)
    (hout : w.game.outQueue = []) (h : w.tick platform config dt net = some (w', net')) :
    w'.game.outQueue = [] ∧ ∃ new, net'.outQueue = net.outQueue ++ new ∧
      ((∀ q ∈ new, q.packet.KeepsLimits) ↔
        EachAfter (fun pre => SmallSpawn (history ++ pre)) net.inQueue) := by
  obtain ⟨w2, w3, hin, hloop, rfl, rfl⟩ := World.tick_eq_some.mp h
  obtain ⟨w1, hreset, hfold⟩ := World.inputPhase_eq_some.mp hin
  have hagrees1 : World.Agrees history w1 := World.agrees_forEach (w := { w with game :=
    { w.game with inQueue := net.inQueue } }) hagrees hreset
  obtain ⟨new, hnew, hiff⟩ := limits_foldlM (w := { w1 with game :=
    { w1.game with inQueue := [] } }) hagrees1 hfold
  have hquiet : w1.game.outQueue = [] := by
    rw [World.forEach_outQueue_of_silent (fun _ => rfl) hreset]
    exact hout
  refine ⟨rfl, w3.game.outQueue, rfl, ?_⟩
  obtain ⟨-, -, hmoves, -⟩ := World.forEach_eq_some hloop
  have hnew' : w2.game.outQueue = new := by
    rw [hnew]
    simp [hquiet]
  rw [hmoves, hnew', ← hiff]
  constructor
  · intro hall q hq
    exact hall q (List.mem_append_left _ hq)
  · intro hall q hq
    rcases List.mem_append.mp hq with hq | hq
    · exact hall q hq
    · obtain ⟨⟨j, v⟩, -, hv⟩ := List.mem_flatMap.mp hq
      cases v with
      | none => simp at hv
      | some player =>
        have heq : q = movePacket platform
            (movePlayer platform config (applyGravity dt player)) := by
          simpa [update] using hv
        rw [heq]
        exact (wellFramed_movePacket platform _).keepsLimits

/-! ## Runs -/

variable {turns : List Turn} {s : World × Subsystem}

/-- In every run, all packets that the world has pushed keep the limits exactly if no
    player was created next to more than four others. -/
theorem limits_iff (h : GameRun platform config turns s) :
    (∀ q ∈ s.2.outQueue, q.packet.KeepsLimits) ↔
      EachAfter SmallSpawn (turns.flatMap Turn.inputs) := by
  have hrun : s.1.game.outQueue = [] ∧ ((∀ q ∈ s.2.outQueue, q.packet.KeepsLimits) ↔
      EachAfter SmallSpawn (turns.flatMap Turn.inputs)) := by
    induction h with
    | nil => exact ⟨rfl, iff_of_true (by simp) EachAfter.nil⟩
    | @snoc ls turn s s' hrun hstep ih =>
      obtain ⟨hout, hiff⟩ := ih
      have hqueue := (game_inQueue hrun).2
      obtain ⟨hout', new, hnew, hiff'⟩ := limits_tick (game_agrees hrun).1 hout hstep
      refine ⟨hout', ?_⟩
      simp only [hqueue, List.nil_append] at hiff' hnew
      rw [List.flatMap_append, EachAfter.append_iff, ← hiff, hnew]
      simp only [List.flatMap_cons, List.flatMap_nil, List.append_nil, ← hiff', List.mem_append,
        or_imp, forall_and]
  exact hrun.2

/-- Two players, created in one tick. -/
theorem limits_iff_room : ∃ s, GameRun .x86 .room
      [⟨1, [.ofOpcode .createPlayer 0, .ofOpcode .createPlayer 1]⟩] s ∧
    ∀ q ∈ s.2.outQueue, q.packet.KeepsLimits := by
  have heval : (([⟨1, [.ofOpcode .createPlayer 0, .ofOpcode .createPlayer 1]⟩] :
      List Turn).foldlM (gameStep .x86 .room) ({}, {})).isSome = true := by decide +kernel
  obtain ⟨s, hs⟩ := Option.isSome_iff_exists.mp heval
  have hrun := run_iff_foldlM.mpr hs
  exact ⟨s, hrun, (limits_iff hrun).mpr (by decide)⟩

/-- The creation of the sixth player pushes a `SpawnPlayers` packet of 138 bytes. -/
theorem six_players_break_limits : ¬ ∀ (turns : List Turn) (s : World × Subsystem),
    GameRun .x86 .room turns s → ∀ q ∈ s.2.outQueue, q.packet.KeepsLimits := by
  intro hclaim
  have heval : (([⟨1, [0, 1, 2, 3, 4, 5].map (.ofOpcode .createPlayer)⟩] : List Turn).foldlM
      (gameStep .x86 .room) ({}, {})).map (fun s =>
        s.2.outQueue.any fun q => !q.packet.isValidHeader) = some true := by decide +kernel
  obtain ⟨s, hrun, hinvalid⟩ := Option.map_eq_some_iff.mp heval
  obtain ⟨q, hq, hq'⟩ := List.any_eq_true.mp hinvalid
  have hkeeps := hclaim _ s (run_iff_foldlM.mpr hrun) q hq
  simp [hkeeps.1] at hq'

end EndlessPeak
