import EndlessPeak.Game.Tick

/-!
# When the world dereferences a null pointer

`ProcessInput` reads `players_` with `operator[]`, so any packet for an id without
a player leaves a null entry behind, and every loop over the players dereferences
all entries. Whether a run meets a null pointer is decided here from its inputs
alone.

* `Live`: the last lifecycle packet about an id is a `CreatePlayer`.
* `BatchSafe`: no steering packet comes for an id that is not live, and any other
  packet for such an id is made good within the tick, before the next
  `CreatePlayer` of another id.
* `nullSafe_iff`: the run ends, with all pointers valid, exactly if every batch is
  safe.
* `remove_then_move_crash`: a client can send an unsafe batch.
-/

namespace EndlessPeak

open Lib

/-! ## The history of an id -/

/-- The packets that create or remove a player. -/
def ServerPacket.IsLifecycle (p : ServerPacket) : Prop :=
  p.opcode = some .createPlayer ∨ p.opcode = some .removePlayer

instance (p : ServerPacket) : Decidable p.IsLifecycle := inferInstanceAs (Decidable (_ ∨ _))

/-- The packets that steer a player. -/
def ServerPacket.Steers (p : ServerPacket) : Prop :=
  ∃ o, p.opcode = some o ∧ World.IsCommand o

/-- Whether the player `id` is there after one more packet. -/
def liveStep (id : UInt64) (live : Bool) (p : ServerPacket) : Bool :=
  if p.id = id then
    if p.opcode = some .createPlayer then true
    else if p.opcode = some .removePlayer then false
    else live
  else live

/-- The last lifecycle packet about `id` in the history is a `CreatePlayer`. -/
def Live (history : List ServerPacket) (id : UInt64) : Prop :=
  history.foldl (liveStep id) false = true

instance (history : List ServerPacket) (id : UInt64) : Decidable (Live history id) :=
  inferInstanceAs (Decidable (_ = _))

/-- A packet about an id that is not live, other than a lifecycle packet. -/
def Dangling (history : List ServerPacket) (p : ServerPacket) : Prop :=
  ¬ p.IsLifecycle ∧ ¬ Live history p.id

/-- A lifecycle packet about `id` follows before any `CreatePlayer` of another id. -/
def Resolved (id : UInt64) (rest : List ServerPacket) : Prop :=
  ∃ mid q post, rest = mid ++ q :: post ∧ q.id = id ∧ q.IsLifecycle ∧
    ∀ p ∈ mid, p.opcode ≠ some .createPlayer

/-- In a tick that processes `batch` after `history`, no dangling packet steers, and
    every dangling packet is resolved within the batch. -/
def BatchSafe (history batch : List ServerPacket) : Prop :=
  ∀ pre p post, batch = pre ++ p :: post → Dangling (history ++ pre) p →
    ¬ p.Steers ∧ Resolved p.id post

theorem live_snoc (history : List ServerPacket) (p : ServerPacket) (id : UInt64) :
    Live (history ++ [p]) id ↔ liveStep id (history.foldl (liveStep id) false) p = true := by
  simp [Live, List.foldl_append]

theorem live_snoc_of_ne {history : List ServerPacket} {p : ServerPacket} {id : UInt64}
    (h : p.id ≠ id) : Live (history ++ [p]) id ↔ Live history id := by
  simp [Live, liveStep, h]

theorem live_snoc_self (history : List ServerPacket) (p : ServerPacket) :
    Live (history ++ [p]) p.id ↔ p.opcode = some .createPlayer ∨
      (p.opcode ≠ some .removePlayer ∧ Live history p.id) := by
  have hlive : Live history p.id ↔ history.foldl (liveStep p.id) false = true := Iff.rfl
  rw [live_snoc, hlive]
  generalize history.foldl (liveStep p.id) false = live
  unfold liveStep
  by_cases hc : p.opcode = some .createPlayer
  · simp [hc]
  · by_cases hr : p.opcode = some .removePlayer
    · simp [hr]
    · simp [hc, hr]

theorem mem_ids_of_live {history : List ServerPacket} {id : UInt64} (h : Live history id) :
    id ∈ history.map ServerPacket.id := by
  induction history using List.reverseRecOn with
  | nil => simp [Live] at h
  | append_singleton history p ih =>
    rw [List.map_append, List.mem_append]
    by_cases hid : p.id = id
    · exact .inr (by simp [hid])
    · exact .inl (ih ((live_snoc_of_ne hid).mp h))

namespace World

variable {platform : Platform} {config : GameConfig} {dt : ℚ} {w w' : World} {id : UInt64}
  {p : ServerPacket}

/-! ## One packet -/

/-- The entries after a packet: those of other ids are as before; the packet's own
    id is not null if the packet is a lifecycle packet or the player was there. -/
theorem lookup_processInput_of_ne (h : w.processInput platform config dt p = some w')
    (hne : id ≠ p.id) : w'.players.lookup id = w.players.lookup id := by
  rcases processInput_cases h with ⟨-, hadd⟩ | ⟨-, rfl⟩ | ⟨o, q, -, -, -, rfl⟩ | ⟨-, rfl⟩
  · rw [(addPlayer_eq_some hadd).2.1, lookup_store, if_neg (by exact hne), lookup_touch,
      if_neg hne]
  · rw [lookup_removePlayer, if_neg hne, lookup_touch, if_neg hne]
  · rw [lookup_store, if_neg hne, lookup_touch, if_neg hne]
  · rw [lookup_touch, if_neg hne]

/-- A player is there after a packet about its id exactly if the packet creates it,
    or it was there and the packet does not remove it. -/
theorem player?_processInput_self (h : w.processInput platform config dt p = some w') :
    w'.player? p.id ≠ none ↔ p.opcode = some .createPlayer ∨
      (p.opcode ≠ some .removePlayer ∧ w.player? p.id ≠ none) := by
  rcases processInput_cases h with
    ⟨ho, hadd⟩ | ⟨ho, rfl⟩ | ⟨o, q, ho, hcommand, hq, rfl⟩ | ⟨ho, rfl⟩
  · rw [player?_addPlayer hadd, if_pos (by rfl)]
    simp [ho]
  · rw [player?_removePlayer, if_pos rfl]
    simp [ho]
  · have hremove : o ≠ .removePlayer := by
      rintro rfl
      simp [IsCommand] at hcommand
    rw [player?_store, if_pos rfl]
    simp [ho, hq, hremove]
  · rw [player?_touch]
    have hc : p.opcode ≠ some .createPlayer := fun hc => (ho _ hc).1 rfl
    have hr : p.opcode ≠ some .removePlayer := fun hr => (ho _ hr).2.1 rfl
    simp [hc, hr]

/-- After a packet its id has a null entry exactly if the packet is no lifecycle
    packet and there was no player. -/
theorem null_processInput_self (h : w.processInput platform config dt p = some w') :
    w'.players.lookup p.id = some none ↔ ¬ p.IsLifecycle ∧ w.player? p.id = none := by
  unfold ServerPacket.IsLifecycle
  rcases processInput_cases h with
    ⟨ho, hadd⟩ | ⟨ho, rfl⟩ | ⟨o, q, ho, hcommand, hq, rfl⟩ | ⟨ho, rfl⟩
  · rw [(addPlayer_eq_some hadd).2.1, lookup_store, if_pos (by rfl)]
    simp [ho]
  · rw [lookup_removePlayer, if_pos rfl]
    simp [ho]
  · rw [lookup_store, if_pos rfl]
    simp [hq]
  · rw [lookup_touch, if_pos rfl]
    have hc : p.opcode ≠ some .createPlayer := fun hc => (ho _ hc).1 rfl
    have hr : p.opcode ≠ some .removePlayer := fun hr => (ho _ hr).2.1 rfl
    simp [hc, hr]

/-- `history` has been processed: the players that are there are the live ones. -/
def Agrees (history : List ServerPacket) (w : World) : Prop :=
  ∀ id, w.player? id ≠ none ↔ Live history id

theorem agrees_processInput {history : List ServerPacket} (hagrees : Agrees history w)
    (h : w.processInput platform config dt p = some w') : Agrees (history ++ [p]) w' := by
  intro id
  by_cases hid : id = p.id
  · subst hid
    rw [player?_processInput_self h, live_snoc_self, hagrees p.id]
  · rw [player?, lookup_processInput_of_ne h hid, ← player?, live_snoc_of_ne (Ne.symm hid)]
    exact hagrees id

theorem agrees_foldlM {history batch : List ServerPacket} (hagrees : Agrees history w)
    (h : batch.foldlM (processInput platform config dt) w = some w') :
    Agrees (history ++ batch) w' := by
  refine (run_iff_foldlM.mpr h).invariant_trace
    (I := fun pre w => Agrees (history ++ pre) w) (by simpa using hagrees) ?_
  intro pre v q v' hv hstep
  rw [← List.append_assoc]
  exact agrees_processInput hv hstep

/-! ## One batch -/

/-- Every null entry will be made good by the packets still to come. -/
def NullsResolved (rest : List ServerPacket) (w : World) : Prop :=
  ∀ id, w.players.lookup id = some none → Resolved id rest

theorem nullsResolved_nil : NullsResolved [] w ↔ ∀ id, w.players.lookup id ≠ some none := by
  constructor
  · intro h id hnull
    obtain ⟨mid, q, post, heq, -⟩ := h id hnull
    simp at heq
  · intro h id hnull
    exact absurd hnull (h id)

theorem resolved_cons {rest : List ServerPacket} (h : Resolved id (p :: rest)) :
    p.id = id ∧ p.IsLifecycle ∨ p.opcode ≠ some .createPlayer ∧ Resolved id rest := by
  obtain ⟨mid, q, post, heq, hid, hlife, hmid⟩ := h
  cases mid with
  | nil =>
    obtain ⟨rfl, -⟩ := List.cons.inj heq
    exact .inl ⟨hid, hlife⟩
  | cons m mid =>
    obtain ⟨rfl, hrest⟩ := List.cons.inj heq
    exact .inr ⟨hmid _ List.mem_cons_self, mid, q, post, hrest, hid, hlife,
      fun r hr => hmid r (List.mem_cons_of_mem _ hr)⟩

theorem resolved_cons_of {rest : List ServerPacket} (hc : p.opcode ≠ some .createPlayer)
    (h : Resolved id rest) : Resolved id (p :: rest) := by
  obtain ⟨mid, q, post, rfl, hid, hlife, hmid⟩ := h
  refine ⟨p :: mid, q, post, rfl, hid, hlife, ?_⟩
  intro r hr
  rcases List.mem_cons.mp hr with rfl | hr
  · exact hc
  · exact hmid r hr

theorem batchSafe_tail {history batch : List ServerPacket} (h : BatchSafe history (p :: batch)) :
    BatchSafe (history ++ [p]) batch := by
  rintro pre q post rfl hdangling
  exact h (p :: pre) q post rfl (by simpa using hdangling)

/-- A safe batch is processed to its end, and leaves no null entry. -/
theorem processInput_of_batchSafe (platform : Platform) (config : GameConfig) (dt : ℚ)
    (batch : List ServerPacket) {history : List ServerPacket}
    {w : World} (hagrees : Agrees history w) (hnulls : NullsResolved batch w)
    (hsafe : BatchSafe history batch) :
    ∃ w', batch.foldlM (processInput platform config dt) w = some w' ∧
      ∀ id, w'.players.lookup id ≠ some none := by
  induction batch generalizing history w with
  | nil => exact ⟨w, rfl, nullsResolved_nil.mp hnulls⟩
  | cons p batch ih =>
    have hnow := hsafe [] p batch rfl
    rw [List.append_nil] at hnow
    -- the packet meets no null pointer
    have hok : w.processInput platform config dt p ≠ none := by
      rw [Ne, processInput_eq_none]
      rintro (⟨o, ho, hcommand, hnone⟩ | ⟨ho, j, hj, hnull⟩)
      · have hlife : ¬ p.IsLifecycle := by
          rintro (hc | hr)
          · rw [ho] at hc
            cases hc
            simp [IsCommand] at hcommand
          · rw [ho] at hr
            cases hr
            simp [IsCommand] at hcommand
        have hdead : ¬ Live history p.id := by
          rw [← hagrees p.id]
          simp [hnone]
        exact (hnow ⟨hlife, hdead⟩).1 ⟨o, ho, hcommand⟩
      · rcases resolved_cons (hnulls j hnull) with ⟨rfl, -⟩ | ⟨hc, -⟩
        · exact hj rfl
        · exact hc ho
    obtain ⟨w1, h1⟩ := Option.ne_none_iff_exists'.mp hok
    have hnulls1 : NullsResolved batch w1 := by
      intro id hnull
      by_cases hid : id = p.id
      · subst hid
        obtain ⟨hlife, hnone⟩ := (null_processInput_self h1).mp hnull
        have hdead : ¬ Live history p.id := by
          rw [← hagrees p.id]
          simp [hnone]
        exact (hnow ⟨hlife, hdead⟩).2
      · rw [lookup_processInput_of_ne h1 hid] at hnull
        rcases resolved_cons (hnulls id hnull) with ⟨heq, -⟩ | ⟨-, hres⟩
        · exact absurd heq.symm hid
        · exact hres
    rw [List.foldlM_cons, h1]
    exact ih (agrees_processInput hagrees h1) hnulls1 (batchSafe_tail hsafe)

/-- A null entry that is gone at the end of a batch has been resolved. -/
theorem resolved_of_foldlM (batch : List ServerPacket) {w w' : World}
    (h : batch.foldlM (processInput platform config dt) w = some w')
    (hnull : w.players.lookup id = some none) (hend : w'.players.lookup id ≠ some none) :
    Resolved id batch := by
  induction batch generalizing w with
  | nil =>
    cases h
    exact absurd hnull hend
  | cons p batch ih =>
    rw [List.foldlM_cons, Option.bind_eq_bind, Option.bind_eq_some_iff] at h
    obtain ⟨w1, h1, hrest⟩ := h
    by_cases hid : id = p.id
    · subst hid
      by_cases hlife : p.IsLifecycle
      · exact ⟨[], p, batch, rfl, rfl, hlife, by simp⟩
      · have hnull1 := (null_processInput_self h1).mpr ⟨hlife, by simp [player?, hnull]⟩
        exact resolved_cons_of (fun hc => hlife (.inl hc)) (ih hrest hnull1)
    · have hc : p.opcode ≠ some .createPlayer := by
        intro hc
        have hok : w.processInput platform config dt p ≠ none := by simp [h1]
        exact hok (processInput_eq_none.mpr (.inr ⟨hc, id, hid, hnull⟩))
      refine resolved_cons_of hc (ih hrest ?_)
      rw [lookup_processInput_of_ne h1 hid]
      exact hnull

/-- A batch that is processed to its end without leaving a null entry is safe. -/
theorem batchSafe_of_foldlM (batch : List ServerPacket) {history : List ServerPacket}
    {w w' : World} (hagrees : Agrees history w)
    (h : batch.foldlM (processInput platform config dt) w = some w')
    (hend : ∀ id, w'.players.lookup id ≠ some none) : BatchSafe history batch := by
  rintro pre p post rfl ⟨hlife, hdead⟩
  rw [List.foldlM_append, Option.bind_eq_bind, Option.bind_eq_some_iff] at h
  obtain ⟨w1, hpre, hrest⟩ := h
  rw [List.foldlM_cons, Option.bind_eq_bind, Option.bind_eq_some_iff] at hrest
  obtain ⟨w2, hp, hpost⟩ := hrest
  have hagrees1 := agrees_foldlM hagrees hpre
  have hnone : w1.player? p.id = none := by
    by_contra hcon
    exact hdead ((hagrees1 p.id).mp hcon)
  constructor
  · rintro ⟨o, ho, hcommand⟩
    have hok : w1.processInput platform config dt p ≠ none := by simp [hp]
    exact hok (processInput_eq_none.mpr (.inl ⟨o, ho, hcommand, hnone⟩))
  · exact resolved_of_foldlM post hpost ((null_processInput_self hp).mpr ⟨hlife, hnone⟩) (hend _)

/-! ## One tick -/

theorem agrees_forEach {body : Player → Player × List ServerPacket} {history : List ServerPacket}
    (hagrees : Agrees history w) (h : w.forEach platform body = some w') :
    Agrees history w' := by
  intro id
  rw [← hagrees id, player?_forEach h, ne_eq, Option.map_eq_none_iff]

theorem not_null_forEach {body : Player → Player × List ServerPacket}
    (h : w.forEach platform body = some w') (id : UInt64) : w'.players.lookup id ≠ some none := by
  obtain ⟨hnull, hlookup, -⟩ := forEach_eq_some h
  rw [hlookup]
  have hid := hnull id
  rcases hv : w.players.lookup id with _ | _ | p
  · simp
  · exact absurd hv hid
  · simp

theorem tick_isSome_iff (platform : Platform) (config : GameConfig) (dt : ℚ)
    {history : List ServerPacket} (net : Subsystem)
    (hagrees : Agrees history w) (hnull : ∀ id, w.players.lookup id ≠ some none) :
    (∃ r, w.tick platform config dt net = some r) ↔ BatchSafe history net.inQueue := by
  obtain ⟨w1, hreset⟩ := forEach_isSome platform (fun player => (player.setVel 0 player.velY, []))
    (w := { w with game := { w.game with inQueue := net.inQueue } }) hnull
  have hagrees1 : Agrees history w1 := agrees_forEach (w := { w with game :=
    { w.game with inQueue := net.inQueue } }) hagrees hreset
  have hnulls1 : NullsResolved net.inQueue w1 := fun id h => absurd h (not_null_forEach hreset id)
  constructor
  · rintro ⟨⟨w', net'⟩, htick⟩
    obtain ⟨w2, w3, hin, hloop, -⟩ := tick_eq_some.mp htick
    obtain ⟨w1', hreset', hfold⟩ := inputPhase_eq_some.mp hin
    rw [hreset, Option.some_inj] at hreset'
    subst hreset'
    exact batchSafe_of_foldlM (w := { w1 with game := { w1.game with inQueue := [] } })
      net.inQueue hagrees1 hfold (forEach_eq_some hloop).1
  · intro hsafe
    obtain ⟨w2, hfold, hnull2⟩ := processInput_of_batchSafe platform config dt net.inQueue
      (w := { w1 with game := { w1.game with inQueue := [] } }) hagrees1 hnulls1 hsafe
    obtain ⟨w3, hloop⟩ := forEach_isSome platform (update platform config dt) hnull2
    exact ⟨_, tick_eq_some.mpr ⟨w2, w3, inputPhase_eq_some.mpr ⟨w1, hreset, hfold⟩, hloop,
      rfl, rfl⟩⟩

theorem agrees_inputPhase {history inputs : List ServerPacket} (hagrees : Agrees history w)
    (h : w.inputPhase platform config dt inputs = some w') : Agrees (history ++ inputs) w' := by
  obtain ⟨w1, hreset, hfold⟩ := inputPhase_eq_some.mp h
  have hagrees1 : Agrees history w1 := agrees_forEach (w := { w with game :=
    { w.game with inQueue := inputs } }) hagrees hreset
  exact agrees_foldlM (w := { w1 with game := { w1.game with inQueue := [] } }) hagrees1 hfold

/-- What a tick that ends leaves behind. -/
theorem agrees_tick {history : List ServerPacket} {net net' : Subsystem}
    (hagrees : Agrees history w) (h : w.tick platform config dt net = some (w', net')) :
    Agrees (history ++ net.inQueue) w' ∧ ∀ id, w'.players.lookup id ≠ some none := by
  obtain ⟨w2, w3, hin, hloop, rfl, -⟩ := tick_eq_some.mp h
  have hagrees3 : Agrees (history ++ net.inQueue) w3 :=
    agrees_forEach (agrees_inputPhase hagrees hin) hloop
  have hnull : ∀ id, w3.players.lookup id ≠ some none := not_null_forEach hloop
  exact ⟨hagrees3, hnull⟩

end World

/-! ## Runs -/

variable {platform : Platform} {config : GameConfig} {turns : List Turn} {s : World × Subsystem}

/-- After a run, the players that are there are the live ones, and no entry is null. -/
theorem game_agrees (h : GameRun platform config turns s) :
    World.Agrees (turns.flatMap Turn.inputs) s.1 ∧ ∀ id, s.1.players.lookup id ≠ some none := by
  induction h with
  | nil => exact ⟨by simp [World.Agrees, World.player?, Live], by simp⟩
  | snoc hrun hstep ih =>
    have hqueue := (game_inQueue hrun).2
    have htick := World.agrees_tick ih.1 hstep
    simpa [hqueue] using htick

theorem game_ids (h : GameRun platform config turns s) : s.1.All fun id p => p.id = id := by
  refine h.invariant (I := fun s => s.1.All fun id p => p.id = id) ?_ ?_
  · intro id p hp
    simp [World.player?] at hp
  · rintro ⟨w, net⟩ turn ⟨w', net'⟩ hw hstep
    obtain ⟨w1, w2, hin, hloop, rfl, -⟩ := World.tick_eq_some.mp hstep
    have h1 : w1.All fun id p => p.id = id := by
      refine World.all_inputPhase (fun _ p hp => hp) (fun _ => rfl) ?_ hw hin
      intro id o p hp
      rw [World.command_id]
      exact hp
    have h2 : w2.All fun id p => p.id = id :=
      World.all_forEach (fun id p _ hid => by simpa [update, applyGravity] using hid) h1 hloop
    exact h2

/-- A run that has got this far can take another turn exactly if its batch is safe. -/
theorem game_step_iff (h : GameRun platform config turns s) (turn : Turn) :
    (∃ s', gameStep platform config s turn = some s') ↔
      BatchSafe (turns.flatMap Turn.inputs) turn.inputs := by
  have hqueue := (game_inQueue h).2
  have htick := World.tick_isSome_iff platform config turn.dt
    { s.2 with inQueue := s.2.inQueue ++ turn.inputs } (game_agrees h).1 (game_agrees h).2
  simpa [gameStep, hqueue] using htick

/-- No null pointer is dereferenced in the turns, and after each of them every entry
    of `players_` is a player stored under its id. -/
def NullSafe (platform : Platform) (config : GameConfig) (turns : List Turn) : Prop :=
  ∀ before, before <+: turns → ∃ s, GameRun platform config before s ∧ s.1.Sound

/-- Every batch is safe after the packets of the earlier turns. -/
def InputsSafe (turns : List Turn) : Prop :=
  ∀ before turn after, turns = before ++ turn :: after →
    BatchSafe (before.flatMap Turn.inputs) turn.inputs

theorem game_sound (h : GameRun platform config turns s) : s.1.Sound := by
  intro id v hv
  cases v with
  | none => exact absurd hv ((game_agrees h).2 id)
  | some p => exact ⟨p, rfl, game_ids h id p (World.player?_eq_some.mpr hv)⟩

/-- The world is free of null dereferences exactly on safe inputs. -/
theorem nullSafe_iff : NullSafe platform config turns ↔ InputsSafe turns := by
  constructor
  · rintro h before turn after rfl
    obtain ⟨s, hrun, -⟩ := h (before ++ [turn]) ⟨after, by simp⟩
    obtain ⟨s0, hbefore, hstep⟩ := Run.snoc_iff.mp hrun
    exact (game_step_iff hbefore turn).mp ⟨s, hstep⟩
  · intro h before hprefix
    have hrun : ∃ s, GameRun platform config before s := by
      induction before using List.reverseRecOn with
      | nil => exact ⟨_, .nil⟩
      | append_singleton before turn ih =>
        obtain ⟨after, rfl⟩ := hprefix
        obtain ⟨s, hbefore⟩ := ih ⟨turn :: after, by simp⟩
        obtain ⟨s', hstep⟩ := (game_step_iff hbefore turn).mpr
          (h before turn after (by simp))
        exact ⟨s', hbefore.snoc hstep⟩
    obtain ⟨s, hrun⟩ := hrun
    exact ⟨s, hrun, game_sound hrun⟩

/-! ## What clients can send -/

/-- What one session pushes about its id: nothing, or the `CreatePlayer` of the
    server, packets of the client that passed `IsValidHeader`, and at the end possibly the
    `RemovePlayer` of the server. -/
def SessionPackets (id : UInt64) (packets : List ServerPacket) : Prop :=
  packets = [] ∨ ∃ client tail, packets = .ofOpcode .createPlayer id :: (client ++ tail) ∧
    (tail = [] ∨ tail = [.ofOpcode .removePlayer id]) ∧
    ∀ p ∈ client, p.id = id ∧ p.packet.getHeadOpcode < kMaxOpcode

/-- A client that sends `RemovePlayer` and then `MoveLeft` makes the world
    dereference a null pointer. -/
theorem remove_then_move_crash :
    ¬ ∀ turns : List Turn, (∀ turn ∈ turns, 0 ≤ turn.dt) →
      (∀ id, SessionPackets id ((turns.flatMap Turn.inputs).filter fun p => p.id = id)) →
      NullSafe .x86 .room turns := by
  intro hclaim
  have hsession : ∀ id, SessionPackets id (List.filter (fun p => p.id = id)
      [.ofOpcode .createPlayer 0, .ofOpcode .removePlayer 0, .ofOpcode .moveLeft 0]) := by
    intro id
    by_cases hid : 0 = id
    · subst hid
      exact .inr ⟨[.ofOpcode .removePlayer 0, .ofOpcode .moveLeft 0], [], by decide, .inl rfl,
        by decide⟩
    · exact .inl (by simp [ServerPacket.ofOpcode, hid])
  obtain ⟨s, hrun, -⟩ := hclaim [⟨1, [.ofOpcode .createPlayer 0, .ofOpcode .removePlayer 0,
    .ofOpcode .moveLeft 0]⟩] (by simp) (by simpa using hsession) _ (List.prefix_refl _)
  rw [GameRun, run_iff_foldlM] at hrun
  have hcrash : (gameStep .x86 .room ({}, {}) ⟨1, [.ofOpcode .createPlayer 0,
      .ofOpcode .removePlayer 0, .ofOpcode .moveLeft 0]⟩).isNone = true := by decide +kernel
  rw [List.foldlM_cons, Option.isNone_iff_eq_none.mp hcrash] at hrun
  simp at hrun

end EndlessPeak
