import EndlessPeak.Game.Introductions
import EndlessPeak.Net.Membership

/-!
# Announced before moved

`AddSession` makes a session a target of the broadcasts at once, but its snapshot is
made by a later tick and sent later still. A broadcast in between tells the client
about players it has not heard of.

* `Watched`: the program with a log of what `Sender` has popped, and for whom.
* `Heard`: what every session has received, by this log (`heard_step`).
* `Orderly`: the server removes only players that are there (`orderly_step`).
* `announced_of_timely`: the pops that are timely announce every player in time.
* `announced_iff`: all clients hear of a player before it moves or leaves exactly if
  every pop is timely.
-/

namespace EndlessPeak

open Lib

/-! ## What a client reads -/

/-- The opcode in the header of a buffer. -/
def bufferOpcode (buf : List UInt8) : Option Opcodes :=
  toOpcode (UInt16.ofNat (beNat (buf.take 2)))

/-- What follows the header. -/
def bufferBody (buf : List UInt8) : List UInt8 := buf.drop sizeofPacketHead

/-- The buffer tells the client of session `s` about the player `id`: its own
    `CreatePlayer`, a record of `SpawnPlayers`, or an `AddPlayer`. -/
def AnnouncesPlayer (s id : UInt64) (buf : List UInt8) : Prop :=
  match bufferOpcode buf with
  | some .createPlayer => id = s ∧ readId (bufferBody buf) = id
  | some .spawnPlayers => id ∈ (readSpawn (bufferBody buf)).map Prod.fst
  | some .addPlayer => readId (bufferBody buf) = id
  | _ => False

/-- A `MovePlayer` about `id`. -/
def MovesPlayer (id : UInt64) (buf : List UInt8) : Prop :=
  bufferOpcode buf = some .movePlayer ∧ readId (bufferBody buf) = id

/-- A `RemovePlayer` about `id`. -/
def RemovesPlayer (id : UInt64) (buf : List UInt8) : Prop :=
  bufferOpcode buf = some .removePlayer ∧ readId (bufferBody buf) = id

/-- In the buffers pushed to session `s` every player is announced before it is moved
    or removed, and is not removed between its announcement and a move. -/
def AnnouncedFirst (s : UInt64) (buffers : List (List UInt8)) : Prop :=
  EachAfter (fun before buf => ∀ id,
    (MovesPlayer id buf → Since (AnnouncesPlayer s id) (RemovesPlayer id) before) ∧
      (RemovesPlayer id buf → ∃ a ∈ before, AnnouncesPlayer s id a)) buffers

/-- However far the events have got, this holds for every session that is live then. -/
def Announced (platform : Platform) (config : GameConfig) (events : List Event) : Prop :=
  ∀ before after, events = before ++ after → ∀ σ, SystemRun platform config before σ →
    ∀ s ∈ σ.server.sessions, AnnouncedFirst s (σ.server.received s)

/-! ## What `Sender` has popped -/

/-- A packet that `Sender` has popped, and the keys of `sessions_` at that moment. -/
structure Pop where
  packet : ServerPacket
  targets : List UInt64

/-- `PushToSend` of session `s` is called with the packet. -/
def Pop.Reaches (pop : Pop) (s : UInt64) : Prop := s ∈ pop.targets ∧ pop.packet.AddressedTo s

instance (pop : Pop) (s : UInt64) : Decidable (pop.Reaches s) :=
  inferInstanceAs (Decidable (_ ∧ _))

/-- The bytes of the packet. -/
def Pop.buffer (pop : Pop) : List UInt8 := pop.packet.packet.makeBuffer

/-- A session that was there at some pop was there at all later ones. -/
def Stays (s : UInt64) (pops : List Pop) : Prop :=
  EachAfter (fun before pop => (∃ q ∈ before, s ∈ q.targets) → s ∈ pop.targets) pops

/-- Packets to one session have found it. -/
def OwnTargets (pops : List Pop) : Prop :=
  ∀ pop ∈ pops, pop.packet.type = .rpc → pop.packet.id ∈ pop.targets

/-- The program, and what `Sender` has popped so far. -/
structure Watched where
  system : System := {}
  pops : List Pop := []

/-- What `Sender` pops in a step. -/
def System.popOf (σ : System) : Event → List Pop
  | .send => σ.net.outQueue.head?.toList.map fun packet =>
      { packet, targets := σ.server.sessions.keys }
  | _ => []

/-- One step of the program; the log is only written. -/
def Watched.step (platform : Platform) (config : GameConfig) (w : Watched) (e : Event) :
    Option Watched :=
  (w.system.step platform config e).map fun system =>
    { system, pops := w.pops ++ w.system.popOf e }

/-- The events can happen in this order from the start of the program, and lead to the
    last argument. -/
def WatchedRun (platform : Platform) (config : GameConfig) : List Event → Watched → Prop :=
  Run (stepRel (Watched.step platform config)) {}

/-- When `Sender` pops a packet that moves or removes a player, every session it finds
    in `sessions_`, other than the player's own, has been sent its `SpawnPlayers`
    before, or was there already when `Sender` popped the `AddPlayer` of that player. -/
def Timely (before : List Pop) (pop : Pop) : Prop :=
  pop.packet.opcode = some .movePlayer ∨ pop.packet.opcode = some .removePlayer →
    ∀ s ∈ pop.targets, s = pop.packet.id ∨ (∃ q ∈ before, IsSpawnFor s q.packet) ∨
      ∃ q ∈ before, IsAddOf pop.packet.id q.packet ∧ s ∈ q.targets

/-- However far the events have got, every pop so far was timely. -/
def TimelyPops (platform : Platform) (config : GameConfig) (events : List Event) : Prop :=
  ∀ before after, events = before ++ after → ∀ w, WatchedRun platform config before w →
    EachAfter Timely w.pops

namespace Watched

variable {platform : Platform} {config : GameConfig} {events : List Event} {w w' : Watched}
  {e : Event}

theorem step_eq_some : w.step platform config e = some w' ↔
    w.system.step platform config e = some w'.system ∧ w'.pops = w.pops ++ w.system.popOf e := by
  obtain ⟨system, pops⟩ := w'
  simp [step, eq_comm, and_comm]

theorem system_run (h : WatchedRun platform config events w) :
    SystemRun platform config events w.system := by
  induction h with
  | nil => exact .nil
  | snoc _ hstep ih => exact ih.snoc (step_eq_some.mp hstep).1

theorem exists_run {σ : System} (h : SystemRun platform config events σ) :
    ∃ pops, WatchedRun platform config events ⟨σ, pops⟩ := by
  induction h with
  | nil => exact ⟨[], .nil⟩
  | @snoc events e σ σ' _ hstep ih =>
    obtain ⟨pops, hrun⟩ := ih
    exact ⟨pops ++ σ.popOf e, hrun.snoc (step_eq_some.mpr ⟨hstep, rfl⟩)⟩

/-! ## What the sessions have received -/

/-- Every session has received the popped packets that were addressed to it while it
    was there; a session is there in one go, and its own packets find it. -/
structure Heard (w : Watched) : Prop where
  received : ∀ s, w.system.server.received s =
    (w.pops.filter fun pop => pop.Reaches s).map Pop.buffer
  own : OwnTargets w.pops
  created_of_target : ∀ pop ∈ w.pops, ∀ s ∈ pop.targets, created s ∈ w.system.history
  stays : ∀ s ∈ w.system.server.sessions, Stays s w.pops

theorem heard_init : Heard {} := by
  refine ⟨fun s => rfl, by simp [OwnTargets], by simp, ?_⟩
  intro s hs
  simp at hs

theorem Heard.of_same (h : w.Heard) (hstep : w.system.step platform config e = some w'.system)
    (hpops : w'.pops = w.pops) (hpushed : w'.system.server.pushed = w.system.server.pushed)
    (hsessions : ∀ s ∈ w'.system.server.sessions,
      s ∈ w.system.server.sessions ∨ created s ∉ w.system.history) : w'.Heard := by
  refine ⟨?_, ?_, ?_, ?_⟩
  · intro s
    rw [hpops, ← h.received, Server.received, Server.received, hpushed]
  · rw [hpops]
    exact h.own
  · rw [hpops]
    exact fun pop hpop s hs => System.mem_history_step hstep (h.created_of_target pop hpop s hs)
  · intro s hs
    rw [hpops]
    rcases hsessions s hs with hold | hnew
    · exact h.stays s hold
    · -- nothing has been popped for a session that is new
      rintro before pop after hsplit ⟨q, hq, htarget⟩
      exact absurd (h.created_of_target q (by simp [hsplit, hq]) s htarget) hnew

theorem heard_send (h : w.Heard) (hsound : w.system.Sound) (hlogged : w.system.Logged)
    (hstep : w.step platform config .send = some w') : w'.Heard := by
  obtain ⟨hsystem, hpops⟩ := step_eq_some.mp hstep
  obtain ⟨packet, rest, server, hqueue, hsend, hw'⟩ := System.step_send_eq_some.mp hsystem
  have hpop : w.system.popOf .send = [⟨packet, w.system.server.sessions.keys⟩] := by
    simp [System.popOf, hqueue]
  rw [hpop] at hpops
  have hsessions := Server.sender_sessions hsound.sessions hsend
  have hhistory : w'.system.history = w.system.history := by rw [hw']; rfl
  refine ⟨?_, ?_, ?_, ?_⟩
  · intro s
    have hreceived := Server.received_sender hsound.sessions hsend s
    rw [hpops, List.filter_append, List.map_append, ← h.received, hw']
    show server.received s = _
    rw [hreceived]
    have hreaches : Pop.Reaches ⟨packet, w.system.server.sessions.keys⟩ s ↔
        s ∈ w.system.server.sessions ∧ packet.AddressedTo s := Iff.rfl
    by_cases hs : Pop.Reaches ⟨packet, w.system.server.sessions.keys⟩ s
    · rw [if_pos (hreaches.mp hs)]
      simp [hs, Pop.buffer]
    · rw [if_neg (mt hreaches.mpr hs)]
      simp [hs]
  · rw [hpops, OwnTargets, List.forall_mem_append, List.forall_mem_singleton]
    exact ⟨h.own, (Server.sender_delivers hsound.sessions hsend).1⟩
  · rw [hpops, hhistory, List.forall_mem_append, List.forall_mem_singleton]
    exact ⟨h.created_of_target, hlogged.created_of_mem⟩
  · intro s hs
    have hmem : s ∈ w.system.server.sessions := by
      rw [hw'] at hs
      exact hsessions ▸ hs
    rw [hpops]
    exact EachAfter.snoc_iff.mpr ⟨h.stays s hmem, fun _ => hmem⟩

theorem heard_step (h : w.Heard) (hsound : w.system.Sound) (hlogged : w.system.Logged)
    (hstep : w.step platform config e = some w') : w'.Heard := by
  obtain ⟨hsystem, hpops⟩ := step_eq_some.mp hstep
  cases e with
  | send => exact heard_send h hsound hlogged hstep
  | addSession id =>
    obtain ⟨hfresh, hw'⟩ := System.step_addSession_eq_some.mp hsystem
    refine h.of_same hsystem (by simpa [System.popOf] using hpops) (by rw [hw']; rfl) ?_
    intro s hs
    have hs : s = id ∨ s ∈ w.system.server.sessions := by simpa [hw', Server.addSession] using hs
    rcases hs with rfl | hs
    · exact .inr hfresh
    · exact .inl hs
  | closeSession id =>
    have hw' := System.step_closeSession_eq_some.mp hsystem
    by_cases hmem : id ∈ w.system.server.sessions
    · rw [if_pos hmem] at hw'
      refine h.of_same hsystem (by simpa [System.popOf] using hpops) ?_ ?_
      · rw [hw', System.pushIn_server]
        simp [Server.closeSession, hmem]
      · intro s hs
        have hs : s ≠ id ∧ s ∈ w.system.server.sessions := by
          simpa [hw', Server.closeSession, hmem] using hs
        exact .inl hs.2
    · rw [if_neg hmem] at hw'
      exact h.of_same hsystem (by simpa [System.popOf] using hpops) (by rw [hw'])
        fun s hs => .inl (by rwa [hw'] at hs)
  | receive id chunk =>
    obtain ⟨-, hw'⟩ := System.step_receive_eq_some.mp hsystem
    refine h.of_same hsystem (by simpa [System.popOf] using hpops) (by rw [hw']; rfl) ?_
    intro s hs
    rw [hw'] at hs
    exact .inl hs
  | tick dt =>
    obtain ⟨world, net, -, hw'⟩ := System.step_tick_eq_some.mp hsystem
    refine h.of_same hsystem (by simpa [System.popOf] using hpops) (by rw [hw']) ?_
    intro s hs
    rw [hw'] at hs
    exact .inl hs

end Watched

/-! ## What the world hears from the server -/

/-- No client packet that has been pushed creates or removes a player. -/
def System.Tame (σ : System) : Prop := ∀ p, (Origin.client, p) ∈ σ.history → ¬ p.IsLifecycle

/-- However far the events have got, the clients have been tame. -/
def TameRun (platform : Platform) (config : GameConfig) (events : List Event) : Prop :=
  ∀ before after, events = before ++ after → ∀ σ, SystemRun platform config before σ → σ.Tame

/-- Packets that do not create or remove a player leave everybody as they are. -/
theorem live_append {log packets : List ServerPacket} (h : ∀ p ∈ packets, ¬ p.IsLifecycle)
    (id : UInt64) : Live (log ++ packets) id ↔ Live log id := by
  induction packets using List.reverseRecOn with
  | nil => rw [List.append_nil]
  | append_singleton packets p ih =>
    rw [List.forall_mem_append, List.forall_mem_singleton] at h
    rw [← List.append_assoc, ← ih h.1]
    obtain ⟨hcreate, hremove⟩ := not_or.mp h.2
    by_cases hid : p.id = id
    · subst hid
      rw [live_snoc_self]
      simp [hcreate, hremove]
    · exact live_snoc_of_ne hid

namespace System

variable {platform : Platform} {config : GameConfig} {σ σ' : System} {e : Event}

/-- The players of the sessions that are there are live, or will be once the pending
    packets are processed; every `RemovePlayer` finds its player. -/
structure Orderly (σ : System) : Prop where
  live : ∀ s ∈ σ.server.sessions, Live (σ.history.map Prod.snd) s
  removable : EachAfter (Removable []) (σ.history.map Prod.snd)

theorem orderly_step (h : σ.Orderly) (hsound : σ.Sound) (htame : σ'.Tame)
    (hstep : σ.step platform config e = some σ') : σ'.Orderly := by
  cases e with
  | addSession id =>
    obtain ⟨-, rfl⟩ := step_addSession_eq_some.mp hstep
    refine ⟨?_, ?_⟩ <;> rw [pushIn_history, List.map_append]
    · intro s hs
      have hs : s = id ∨ s ∈ σ.server.sessions := by simpa [Server.addSession] using hs
      exact (live_snoc_created _ id s).mpr (hs.imp_right (h.live s))
    · refine EachAfter.snoc_iff.mpr ⟨h.removable, ?_⟩
      intro hremove
      simp at hremove
  | closeSession id =>
    obtain rfl := step_closeSession_eq_some.mp hstep
    split_ifs with hmem
    · refine ⟨?_, ?_⟩ <;> rw [pushIn_history, List.map_append]
      · intro s hs
        have hs : s ≠ id ∧ s ∈ σ.server.sessions := by
          simpa [Server.closeSession, hmem] using hs
        exact (live_snoc_removed _ id s).mpr ⟨hs.1, h.live s hs.2⟩
      · exact EachAfter.snoc_iff.mpr ⟨h.removable, fun _ => h.live id hmem⟩
    · exact h
  | receive id chunk =>
    obtain ⟨-, rfl⟩ := step_receive_eq_some.mp hstep
    have hclients : ∀ p ∈ ((σ.readers id).onRead id chunk).2, ¬ p.IsLifecycle := by
      intro p hp
      apply htame
      rw [pushIn_history]
      exact List.mem_append_right _ (List.mem_map_of_mem hp)
    have hmap : ((((σ.readers id).onRead id chunk).2).map fun p => (Origin.client, p)).map
        Prod.snd = ((σ.readers id).onRead id chunk).2 := by
      simp [Function.comp_def]
    refine ⟨?_, ?_⟩ <;> rw [pushIn_history, List.map_append, hmap]
    · exact fun s hs => (live_append hclients s).mpr (h.live s hs)
    · refine EachAfter.append_iff.mpr ⟨h.removable, ?_⟩
      rintro pre p post hsplit hremove
      exact absurd (.inr hremove) (hclients p (by simp [hsplit]))
  | tick dt =>
    obtain ⟨world, net, -, rfl⟩ := step_tick_eq_some.mp hstep
    have hlog : System.history { σ with world, net, processed := σ.history, pending := [] } =
        σ.history := List.append_nil _
    exact ⟨by rw [hlog]; exact h.live, by rw [hlog]; exact h.removable⟩
  | send =>
    obtain ⟨packet, rest, server, -, hsend, rfl⟩ := step_send_eq_some.mp hstep
    have hsessions := Server.sender_sessions hsound.sessions hsend
    exact ⟨fun s hs => h.live s (hsessions ▸ hs), h.removable⟩

/-- The packets that the next tick will process keep to it. -/
theorem Orderly.batch (h : σ.Orderly) (hsound : σ.Sound) :
    EachAfter (Removable (σ.processed.map Prod.snd)) σ.net.inQueue := by
  have hremovable := h.removable
  rw [history, List.map_append, ← hsound.inQueue] at hremovable
  exact (EachAfter.append_iff.mp hremovable).2

end System

namespace Watched

variable {platform : Platform} {config : GameConfig} {events : List Event} {w w' : Watched}
  {e : Event}

/-- The packets that the world has pushed to the network out queue, sent or not. -/
def log (w : Watched) : List ServerPacket := w.pops.map Pop.packet ++ w.system.net.outQueue

theorem log_step (hstep : w.step platform config e = some w') (he : ¬ e.IsTick) :
    w'.log = w.log ∧ w'.system.world = w.system.world := by
  obtain ⟨hsystem, hpops⟩ := step_eq_some.mp hstep
  unfold log
  cases e with
  | tick dt => exact absurd trivial he
  | send =>
    obtain ⟨packet, rest, server, hqueue, -, hw'⟩ := System.step_send_eq_some.mp hsystem
    rw [hpops, hw']
    simp [System.popOf, hqueue]
  | addSession id =>
    obtain ⟨-, hw'⟩ := System.step_addSession_eq_some.mp hsystem
    rw [hpops, hw']
    simp [System.popOf, System.pushIn]
  | closeSession id =>
    have hw' := System.step_closeSession_eq_some.mp hsystem
    rw [hpops, hw']
    split_ifs <;> simp [System.popOf, System.pushIn]
  | receive id chunk =>
    obtain ⟨-, hw'⟩ := System.step_receive_eq_some.mp hsystem
    rw [hpops, hw']
    simp [System.popOf, System.pushIn]

/-- What the world says stays proper, whoever hears it. -/
theorem introduces_step (h : Introduces platform w.log w.system.world) (hsound : w.system.Sound)
    (horderly : w.system.Orderly) (hstep : w.step platform config e = some w') :
    Introduces platform w'.log w'.system.world := by
  by_cases he : e.IsTick
  · cases e with
    | tick dt =>
      obtain ⟨hsystem, hpops⟩ := step_eq_some.mp hstep
      obtain ⟨world, net, htick, hw'⟩ := System.step_tick_eq_some.mp hsystem
      have hlog : w'.log = w.pops.map Pop.packet ++ net.outQueue := by
        rw [log, hpops, hw']
        simp [System.popOf]
      rw [hlog, hw']
      exact introduces_tick h hsound.agrees (horderly.batch hsound) htick
    | addSession | closeSession | receive | send => exact absurd he id
  · obtain ⟨hlog, hworld⟩ := log_step hstep he
    rw [hlog, hworld]
    exact h

/-- The invariant of the runs in which the clients are tame. -/
theorem tame_run (h : WatchedRun platform config events w)
    (htame : TameRun platform config events) :
    w.Heard ∧ Introduces platform w.log w.system.world := by
  suffices hall : w.Heard ∧ w.system.Orderly ∧ Introduces platform w.log w.system.world from
    ⟨hall.1, hall.2.2⟩
  induction h with
  | nil =>
    refine ⟨heard_init, ⟨by simp, EachAfter.nil⟩, ?_, ?_, EachAfter.nil⟩
    · simp [World.All, World.player?]
    · intro id
      simp [World.player?, Known, log, Since.not_nil]
  | @snoc events e w w' hrun hstep ih =>
    obtain ⟨hheard, horderly, hintroduces⟩ := ih fun before after hsplit =>
      htame before (after ++ [e]) (by rw [hsplit, List.append_assoc])
    have hsystem := system_run hrun
    have hsound := system_sound hsystem
    have hnext := (step_eq_some.mp hstep).1
    have htame' := htame (events ++ [e]) [] (by simp) w'.system (hsystem.snoc hnext)
    exact ⟨heard_step hheard hsound (system_logged hsystem) hstep,
      System.orderly_step horderly hsound htame' hnext,
      introduces_step hintroduces hsound horderly hstep⟩

end Watched

/-! ## From packets to buffers -/

section Buffers

variable {platform : Platform} {log : List ServerPacket} {p : ServerPacket} {s id : UInt64}

theorem bufferOpcode_makeBuffer (h : p.packet.body ≠ none) :
    bufferOpcode p.packet.makeBuffer = p.opcode := by
  have htake : p.packet.makeBuffer.take 2 = beBytes 2 p.packet.getHeadOpcode.toNat := by
    rw [NetPacket.makeBuffer_eq h, NetPacket.head_data_eq, List.append_assoc]
    exact List.take_left' (by simp)
  have hlt := p.packet.getHeadOpcode.toNat_lt
  rw [bufferOpcode, htake, beNat_beBytes, Nat.mod_eq_of_lt (by omega), UInt16.ofNat_toNat,
    ServerPacket.opcode]

theorem bufferBody_makeBuffer (h : p.packet.body ≠ none) :
    bufferBody p.packet.makeBuffer = p.packet.body.getD [] := by
  rw [bufferBody, NetPacket.makeBuffer_eq h]
  exact List.drop_left' (PacketHead.length_data _)

theorem Proper.body_ne_none (h : Proper platform log p) : p.packet.body ≠ none := by
  cases h with
  | create player => simp [createPacket_body]
  | spawn packet id hop hbody hall => exact hbody
  | add player before spawn hspawn hlog => simp [addPacket_body]
  | move player hknown => simp [movePacket_body]
  | remove id hknown => simp [removalPacket_body]

/-- The id that a client reads, unless the packet is a snapshot. -/
theorem Proper.readId_body (h : Proper platform log p) (hop : p.opcode ≠ some .spawnPlayers) :
    readId (p.packet.body.getD []) = p.id := by
  cases h with
  | create player =>
    have hread := (read_recordBytes platform player []).1
    rw [List.append_nil] at hread
    rw [createPacket_body]
    exact hread
  | spawn packet id hspawn hbody hall => exact absurd (spawnPacket_opcode id hspawn) hop
  | add player before spawn hspawn hlog =>
    have hread := (read_recordBytes platform player []).1
    rw [List.append_nil] at hread
    rw [addPacket_body]
    exact hread
  | move player hknown =>
    rw [movePacket_body, Option.getD_some, readId_append]
    rfl
  | remove id hknown =>
    rw [removalPacket_body, Option.getD_some, readId_append]
    rfl

/-- What a client takes for a move or a removal is one, and the player is known. -/
theorem Proper.known_of_subject (h : Proper platform log p)
    (hsubject : MovesPlayer id p.packet.makeBuffer ∨ RemovesPlayer id p.packet.makeBuffer) :
    p.id = id ∧ Known log id ∧
      (p.opcode = some .movePlayer ∨ p.opcode = some .removePlayer) := by
  unfold MovesPlayer RemovesPlayer at hsubject
  rw [bufferOpcode_makeBuffer h.body_ne_none, bufferBody_makeBuffer h.body_ne_none] at hsubject
  have hid : p.id = id := by
    rcases hsubject with ⟨hop, hread⟩ | ⟨hop, hread⟩ <;>
      rwa [h.readId_body (by simp [hop])] at hread
  subst hid
  cases h with
  | create player => simp at hsubject
  | spawn packet id hop hbody hall => simp [spawnPacket_opcode id hop] at hsubject
  | add player before spawn hspawn hlog => simp at hsubject
  | move player hknown => exact ⟨rfl, hknown, .inl (movePacket_opcode platform player)⟩
  | remove id hknown => exact ⟨rfl, hknown, .inr (removalPacket_opcode id)⟩

/-- A move or a removal is for everybody, and a client takes it for one. -/
theorem Proper.subject_of_opcode (h : Proper platform log p)
    (hop : p.opcode = some .movePlayer ∨ p.opcode = some .removePlayer) :
    p.type = .broadcast ∧
      (MovesPlayer p.id p.packet.makeBuffer ∨ RemovesPlayer p.id p.packet.makeBuffer) := by
  have hread := h.readId_body (by rcases hop with hop | hop <;> simp [hop])
  unfold MovesPlayer RemovesPlayer
  rw [bufferOpcode_makeBuffer h.body_ne_none, bufferBody_makeBuffer h.body_ne_none]
  refine ⟨?_, hop.imp (fun hop => ⟨hop, hread⟩) fun hop => ⟨hop, hread⟩⟩
  cases h with
  | move player hknown => rfl
  | remove id hknown => rfl
  | create player => simp at hop
  | spawn packet j hhead hbody hall => simp [spawnPacket_opcode j hhead] at hop
  | add player before spawn hspawn hlog => simp at hop

theorem Proper.removesPlayer_iff (h : Proper platform log p) :
    RemovesPlayer id p.packet.makeBuffer ↔ IsRemovalOf id p := by
  unfold RemovesPlayer IsRemovalOf
  rw [bufferOpcode_makeBuffer h.body_ne_none, bufferBody_makeBuffer h.body_ne_none]
  refine and_congr_right fun hop => ?_
  rw [h.readId_body (by simp [hop])]

/-- What a client takes for an announcement is one. -/
theorem Proper.announcer (h : Proper platform log p) (haddressed : p.AddressedTo s)
    (hannounces : AnnouncesPlayer s id p.packet.makeBuffer) :
    id = s ∨ IsSpawnFor s p ∨ IsAddOf id p := by
  unfold AnnouncesPlayer at hannounces
  rw [bufferOpcode_makeBuffer h.body_ne_none, bufferBody_makeBuffer h.body_ne_none] at hannounces
  have hread := h.readId_body
  cases h with
  | create player =>
    rw [createPacket_opcode] at hannounces
    exact .inl hannounces.1
  | spawn packet j hop hbody hall => exact .inr (.inl ⟨spawnPacket_opcode j hop, haddressed⟩)
  | add player before spawn hspawn hlog =>
    rw [addPacket_opcode, hread (by simp)] at hannounces
    exact .inr (.inr ⟨addPacket_opcode platform player, hannounces⟩)
  | move player hknown => simp at hannounces
  | remove j hknown => simp at hannounces

theorem announces_create (platform : Platform) (player : Player) :
    AnnouncesPlayer player.id player.id (createPacket platform player).packet.makeBuffer := by
  have hproper : Proper platform [] (createPacket platform player) := .create player
  unfold AnnouncesPlayer
  rw [bufferOpcode_makeBuffer hproper.body_ne_none, bufferBody_makeBuffer hproper.body_ne_none,
    createPacket_opcode]
  exact ⟨rfl, hproper.readId_body (by simp)⟩

/-- An `AddPlayer` is for the others, and follows the packets for the player's client. -/
theorem Proper.of_add (h : Proper platform log p) (hop : p.opcode = some .addPlayer) :
    p.type = .rpcOthers ∧ ∃ player before spawn,
      player.id = p.id ∧ spawn.opcode = some .spawnPlayers ∧
        log = before ++ [createPacket platform player, spawn] := by
  cases h with
  | add player before spawn hspawn hlog => exact ⟨rfl, player, before, spawn, rfl, hspawn, hlog⟩
  | create player => simp at hop
  | spawn packet j hhead hbody hall => simp [spawnPacket_opcode j hhead] at hop
  | move player hknown => simp at hop
  | remove j hknown => simp at hop

theorem Proper.of_spawn (h : Proper platform log p) (hop : p.opcode = some .spawnPlayers) :
    p.type = .rpc := by
  cases h with
  | spawn packet j hhead hbody hall => rfl
  | create player => simp at hop
  | add player before spawn hspawn hlog => simp at hop
  | move player hknown => simp at hop
  | remove j hknown => simp at hop

theorem Proper.announces_add (h : Proper platform log p) (hadd : IsAddOf id p) (s : UInt64) :
    AnnouncesPlayer s id p.packet.makeBuffer := by
  unfold AnnouncesPlayer
  rw [bufferOpcode_makeBuffer h.body_ne_none, bufferBody_makeBuffer h.body_ne_none, hadd.1]
  exact (h.readId_body (by simp [hadd.1])).trans hadd.2

theorem Proper.announces_spawn (h : Proper platform log p) (hspawn : IsSpawnFor s p)
    (hne : id ≠ s) (hknown : Known log id) : AnnouncesPlayer s id p.packet.makeBuffer := by
  unfold AnnouncesPlayer
  rw [bufferOpcode_makeBuffer h.body_ne_none, bufferBody_makeBuffer h.body_ne_none, hspawn.1]
  obtain ⟨hop, haddressed⟩ := hspawn
  cases h with
  | spawn packet j hhead hbody hall =>
    have hs : s = j := haddressed
    exact hall id (hs ▸ hne) hknown
  | create player => simp at hop
  | add player before spawn hspawn hlog => simp at hop
  | move player _ => simp at hop
  | remove j _ => simp at hop

end Buffers

/-! ## The last introduction -/

/-- Every pop was proper after those before it. -/
def ProperPops (platform : Platform) (pops : List Pop) : Prop :=
  EachAfter (fun before pop => Proper platform (before.map Pop.packet) pop.packet) pops

/-- The last `AddPlayer` about `id`, with no removal since. -/
structure LastAdd (id : UInt64) (early : List Pop) (add : Pop) (late : List Pop) : Prop where
  isAdd : IsAddOf id add.packet
  kept : ∀ q ∈ late, ¬ RemovesPlayer id q.buffer

section LastAdd

variable {platform : Platform} {pops early late : List Pop} {add pop : Pop} {s id : UInt64}

theorem ProperPops.removesPlayer_iff (h : ProperPops platform pops) (hpop : pop ∈ pops) :
    RemovesPlayer id pop.buffer ↔ IsRemovalOf id pop.packet := by
  obtain ⟨before, after, hsplit⟩ := List.append_of_mem hpop
  exact (h before pop after hsplit).removesPlayer_iff

theorem exists_lastAdd (hproper : ProperPops platform pops)
    (hknown : Known (pops.map Pop.packet) id) :
    ∃ early add late, pops = early ++ add :: late ∧ LastAdd id early add late := by
  obtain ⟨early, add, late, rfl, hadd, hlate⟩ := (Since.map_iff Pop.packet).mp hknown
  refine ⟨early, add, late, rfl, hadd, ?_⟩
  intro q hq hremoves
  exact hlate q hq ((hproper.removesPlayer_iff (by simp [hq])).mp hremoves)

/-- The player's own client has got its `CreatePlayer` right before. -/
theorem LastAdd.since_own (h : LastAdd id early add late)
    (hproper : ProperPops platform (early ++ add :: late))
    (hown : OwnTargets (early ++ add :: late)) :
    Since (AnnouncesPlayer id id) (RemovesPlayer id)
      (((early ++ add :: late).filter fun pop => pop.Reaches id).map Pop.buffer) := by
  have hproperAdd := hproper early add late rfl
  obtain ⟨-, player, before, spawn, hid, hspawn, hlog⟩ := hproperAdd.of_add h.isAdd.1
  obtain ⟨before, rest, rfl, -, hrest⟩ := List.map_eq_append_iff.mp hlog
  obtain ⟨create, rest, rfl, hcreate, hrest⟩ := List.map_eq_cons_iff.mp hrest
  obtain ⟨snapshot, rest, rfl, hsnapshot, hnil⟩ := List.map_eq_cons_iff.mp hrest
  obtain rfl := List.map_eq_nil_iff.mp hnil
  have hplayer : player.id = id := hid.trans h.isAdd.2
  have hreaches : create.Reaches id := by
    have htarget := hown create (by simp) (by rw [hcreate]; rfl)
    rw [hcreate] at htarget
    refine ⟨hplayer ▸ htarget, ?_⟩
    rw [hcreate]
    exact hplayer.symm
  have hannounces : AnnouncesPlayer id id create.buffer := by
    unfold Pop.buffer
    rw [hcreate]
    exact hplayer ▸ announces_create platform player
  have hkept : ∀ q ∈ snapshot :: add :: late, ¬ RemovesPlayer id q.buffer := by
    intro q hq
    rw [hproper.removesPlayer_iff (by simp at hq ⊢; tauto)]
    rcases List.mem_cons.mp hq with rfl | hq
    · simp [IsRemovalOf, hsnapshot, hspawn]
    · rcases List.mem_cons.mp hq with rfl | hq
      · simp [IsRemovalOf, h.isAdd.1]
      · exact mt (hproper.removesPlayer_iff (by simp [hq])).mpr (h.kept q hq)
  apply (Since.map_iff Pop.buffer).mpr
  refine Since.filter _ ⟨before, create, snapshot :: add :: late, by simp, ?_, hkept⟩
  exact ⟨hannounces, hreaches⟩

/-- Any other client that has got its snapshot, or was there at the introduction. -/
theorem LastAdd.since_other (h : LastAdd id early add late)
    (hproper : ProperPops platform (early ++ add :: late))
    (hown : OwnTargets (early ++ add :: late)) (hstays : Stays s (early ++ add :: late))
    (hne : s ≠ id) (hheard : (∃ q ∈ early ++ add :: late, IsSpawnFor s q.packet) ∨
      ∃ q ∈ early ++ add :: late, IsAddOf id q.packet ∧ s ∈ q.targets) :
    Since (AnnouncesPlayer s id) (RemovesPlayer id)
      (((early ++ add :: late).filter fun pop => pop.Reaches s).map Pop.buffer) := by
  -- it is enough to have heard of the player at the introduction or after it
  have hstart : ∀ q ∈ add :: late, AnnouncesPlayer s id q.buffer → q.Reaches s →
      Since (AnnouncesPlayer s id) (RemovesPlayer id)
        (((early ++ add :: late).filter fun pop => pop.Reaches s).map Pop.buffer) := by
    intro q hq hannounces hreaches
    apply (Since.map_iff Pop.buffer).mpr
    exact Since.filter _ (Since.of_mem rfl h.kept hq ⟨hannounces, hreaches⟩)
  have hintroduced : ∀ b q c, early ++ add :: late = b ++ q :: c → IsAddOf id q.packet →
      s ∈ q.targets → AnnouncesPlayer s id q.buffer ∧ q.Reaches s := by
    intro b q c hsplit hadd htarget
    have hproperQ := hproper b q c hsplit
    refine ⟨hproperQ.announces_add hadd s, htarget, ?_⟩
    unfold ServerPacket.AddressedTo
    rw [(hproperQ.of_add hadd.1).1]
    exact fun heq => hne (heq.trans hadd.2)
  by_cases htarget : s ∈ add.targets
  · obtain ⟨hannounces, hreaches⟩ := hintroduced early add late rfl h.isAdd htarget
    exact hstart add List.mem_cons_self hannounces hreaches
  -- it was not there at the introduction, so all it has got came after it
  have hlate : ∀ q ∈ early ++ add :: late, s ∈ q.targets → q ∈ late := by
    intro q hq hq'
    rcases List.mem_append.mp hq with hearly | hrest
    · exact absurd (hstays early add late rfl ⟨q, hearly, hq'⟩) htarget
    · rcases List.mem_cons.mp hrest with rfl | hrest
      · exact absurd hq' htarget
      · exact hrest
  rcases hheard with ⟨q, hq, hspawn⟩ | ⟨q, hq, hadd, hq'⟩
  · obtain ⟨before, after, hsplit⟩ := List.append_of_mem hq
    have htype := (hproper before q after hsplit).of_spawn hspawn.1
    have hself : s = q.packet.id := by
      have haddressed := hspawn.2
      unfold ServerPacket.AddressedTo at haddressed
      rwa [htype] at haddressed
    have hq' : s ∈ q.targets := hself ▸ hown q hq htype
    have hmem := hlate q hq hq'
    obtain ⟨mid, rest, rfl⟩ := List.append_of_mem hmem
    have hknown : Known ((early ++ add :: mid).map Pop.packet) id := by
      apply (Since.map_iff Pop.packet).mpr
      refine ⟨early, add, mid, rfl, h.isAdd, ?_⟩
      intro r hr
      have hr' : r ∈ mid ++ q :: rest := List.mem_append_left _ hr
      exact mt (hproper.removesPlayer_iff (by simp [hr])).mpr (h.kept r hr')
    have hproperQ := hproper (early ++ add :: mid) q rest (by simp)
    exact hstart q (List.mem_cons_of_mem _ hmem)
      (hproperQ.announces_spawn hspawn (Ne.symm hne) hknown) ⟨hq', hspawn.2⟩
  · have hmem := hlate q hq hq'
    obtain ⟨mid, rest, rfl⟩ := List.append_of_mem hmem
    obtain ⟨hannounces, hreaches⟩ := hintroduced (early ++ add :: mid) q rest (by simp) hadd hq'
    exact hstart q (List.mem_cons_of_mem _ hmem) hannounces hreaches

end LastAdd

/-! ## Timely pops announce -/

namespace Watched

variable {platform : Platform} {config : GameConfig} {events : List Event} {w w' : Watched}
  {s : UInt64}

theorem properPops (h : Introduces platform w.log w.system.world) :
    ProperPops platform w.pops :=
  (EachAfter.map_iff Pop.packet).mp (EachAfter.append_iff.mp (EachAfter.append_iff.mp h.proper).1).1

/-- When every pop was timely, what a live session has received announces every player
    in time. -/
theorem announced_of_timely (hheard : w.Heard)
    (hintroduces : Introduces platform w.log w.system.world) (htimely : EachAfter Timely w.pops)
    (hs : s ∈ w.system.server.sessions) : AnnouncedFirst s (w.system.server.received s) := by
  rw [hheard.received, AnnouncedFirst, EachAfter.map_iff, EachAfter.filter_iff]
  intro before pop after hpops hreaches id
  have hproper := properPops hintroduces
  have hown := hheard.own
  have hstays := hheard.stays s hs
  rw [hpops] at hproper hown hstays
  have hproperBefore := (EachAfter.append_iff.mp hproper).1
  have hownBefore : OwnTargets before := fun q hq => hown q (List.mem_append_left _ hq)
  have hstaysBefore : Stays s before := (EachAfter.append_iff.mp hstays).1
  have hsince : MovesPlayer id pop.buffer ∨ RemovesPlayer id pop.buffer →
      Since (AnnouncesPlayer s id) (RemovesPlayer id)
        ((before.filter fun pop => pop.Reaches s).map Pop.buffer) := by
    intro hsubject
    obtain ⟨rfl, hknown, hop⟩ := (hproper before pop after rfl).known_of_subject hsubject
    obtain ⟨early, add, late, rfl, hlast⟩ := exists_lastAdd hproperBefore hknown
    rcases htimely _ pop after hpops hop s hreaches.1 with rfl | hother
    · exact hlast.since_own hproperBefore hownBefore
    · by_cases hself : s = pop.packet.id
      · subst hself
        exact hlast.since_own hproperBefore hownBefore
      · exact hlast.since_other hproperBefore hownBefore hstaysBefore hself hother
  exact ⟨fun hmoves => hsince (.inl hmoves), fun hremoves => (hsince (.inr hremoves)).exists_start⟩

/-- When the sessions that are there have had all players announced, the last pop was
    timely. -/
theorem timely_of_announced (hheard : w.Heard)
    (hintroduces : Introduces platform w.log w.system.world) {before : List Pop} {pop : Pop}
    (hpops : w.pops = before ++ [pop]) (htargets : ∀ s ∈ pop.targets, s ∈ w.system.server.sessions)
    (hannounced : ∀ s ∈ w.system.server.sessions, AnnouncedFirst s (w.system.server.received s)) :
    Timely before pop := by
  intro hop s hs
  have hproper := properPops hintroduces
  have hlaw := hannounced s (htargets s hs)
  rw [hheard.received, AnnouncedFirst, EachAfter.map_iff, EachAfter.filter_iff] at hlaw
  obtain ⟨htype, hsubject⟩ := (hproper before pop [] hpops).subject_of_opcode hop
  have hreaches : pop.Reaches s := by
    refine ⟨hs, ?_⟩
    unfold ServerPacket.AddressedTo
    rw [htype]
    trivial
  obtain ⟨hmoves, hremoves⟩ := hlaw before pop [] hpops hreaches pop.packet.id
  obtain ⟨a, ha, hannounces⟩ : ∃ a ∈ (before.filter fun pop => pop.Reaches s).map Pop.buffer,
      AnnouncesPlayer s pop.packet.id a := by
    rcases hsubject with hsubject | hsubject
    · exact (hmoves hsubject).exists_start
    · exact hremoves hsubject
  obtain ⟨q, hq, rfl⟩ := List.mem_map.mp ha
  obtain ⟨hq, hq'⟩ := List.mem_filter.mp hq
  have hreachesQ : q.Reaches s := of_decide_eq_true hq'
  obtain ⟨b, c, hsplit⟩ := List.append_of_mem hq
  have hproperQ := hproper b q (c ++ [pop]) (by rw [hpops, hsplit]; simp)
  rcases hproperQ.announcer hreachesQ.2 hannounces with hself | hspawn | hadd
  · exact .inl hself.symm
  · exact .inr (.inl ⟨q, hq, hspawn⟩)
  · exact .inr (.inr ⟨q, hq, hadd, hreachesQ.1⟩)

theorem timely_run (h : WatchedRun platform config events w)
    (htame : TameRun platform config events) (hannounced : Announced platform config events) :
    EachAfter Timely w.pops := by
  induction h with
  | nil => exact EachAfter.nil
  | @snoc events e w w' hrun hstep ih =>
    have hrun' : WatchedRun platform config (events ++ [e]) w' := hrun.snoc hstep
    have hbefore := ih
      (fun before after hsplit => htame before (after ++ [e]) (by rw [hsplit, List.append_assoc]))
      (fun before after hsplit =>
        hannounced before (after ++ [e]) (by rw [hsplit, List.append_assoc]))
    obtain ⟨hsystem, hpops⟩ := step_eq_some.mp hstep
    cases e with
    | send =>
      obtain ⟨packet, rest, server, hqueue, hsend, hw'⟩ := System.step_send_eq_some.mp hsystem
      have hpop : w.system.popOf .send = [⟨packet, w.system.server.sessions.keys⟩] := by
        simp [System.popOf, hqueue]
      rw [hpop] at hpops
      obtain ⟨hheard, hintroduces⟩ := tame_run hrun' htame
      rw [hpops]
      refine EachAfter.snoc_iff.mpr ⟨hbefore, timely_of_announced hheard hintroduces hpops ?_
        (hannounced _ [] (by simp) w'.system (system_run hrun'))⟩
      have hsound := system_sound (system_run hrun)
      intro s hs
      rw [hw']
      exact Server.sender_sessions hsound.sessions hsend ▸ hs
    | addSession id | closeSession id | receive id chunk | tick dt =>
      have hnone : w'.pops = w.pops := by simpa [System.popOf] using hpops
      rw [hnone]
      exact hbefore

end Watched

/-- As long as the clients create and remove no players: they hear of every player before
    it moves or leaves exactly if every pop is timely. -/
theorem announced_iff_of_tame {platform : Platform} {config : GameConfig} {events : List Event}
    (htame : TameRun platform config events) :
    Announced platform config events ↔ TimelyPops platform config events := by
  have hearlier : ∀ before after, events = before ++ after → TameRun platform config before :=
    fun before after hsplit b a hb => htame b (a ++ after) (by rw [hsplit, hb, List.append_assoc])
  constructor
  · intro hannounced before after hsplit w hrun
    refine Watched.timely_run hrun (hearlier before after hsplit) ?_
    exact fun b a hb => hannounced b (a ++ after) (by rw [hsplit, hb, List.append_assoc])
  · intro htimely before after hsplit σ hrun s hs
    obtain ⟨pops, hwatched⟩ := Watched.exists_run hrun
    obtain ⟨hheard, hintroduces⟩ := Watched.tame_run hwatched (hearlier before after hsplit)
    exact Watched.announced_of_timely hheard hintroduces
      (htimely before after hsplit ⟨σ, pops⟩ hwatched) hs

theorem System.servers_step {platform : Platform} {config : GameConfig} {σ σ' : System} {e : Event}
    (h : ∀ entry ∈ σ.history, entry.1 = .server) (hevent : ∀ id chunk, e ≠ .receive id chunk)
    (hstep : σ.step platform config e = some σ') : ∀ entry ∈ σ'.history, entry.1 = .server := by
  cases e with
  | addSession id =>
    obtain ⟨-, rfl⟩ := step_addSession_eq_some.mp hstep
    rw [pushIn_history, List.forall_mem_append]
    exact ⟨h, by simp⟩
  | closeSession id =>
    obtain rfl := step_closeSession_eq_some.mp hstep
    split_ifs
    · rw [pushIn_history, List.forall_mem_append]
      exact ⟨h, by simp⟩
    · exact h
  | receive id chunk => exact absurd rfl (hevent id chunk)
  | tick dt =>
    obtain ⟨world, net, -, rfl⟩ := step_tick_eq_some.mp hstep
    have hlog : System.history { σ with world, net, processed := σ.history, pending := [] } =
        σ.history := List.append_nil _
    rw [hlog]
    exact h
  | send =>
    obtain ⟨packet, rest, server, -, -, rfl⟩ := step_send_eq_some.mp hstep
    exact h

theorem tameRun_of_no_receive {platform : Platform} {config : GameConfig} {events : List Event}
    (hevents : ∀ id chunk, Event.receive id chunk ∉ events) : TameRun platform config events := by
  rintro before after rfl σ hrun p hp
  have hservers : (∀ id chunk, Event.receive id chunk ∉ before) →
      ∀ entry ∈ σ.history, entry.1 = .server := by
    refine hrun.invariant_trace (I := fun ls σ => (∀ id chunk, Event.receive id chunk ∉ ls) →
      ∀ entry ∈ σ.history, entry.1 = .server) (by simp [System.history]) ?_
    intro ls σ e σ' ih hstep hls
    refine System.servers_step (ih ?_) ?_ hstep
    · exact fun id chunk hmem => hls id chunk (List.mem_append_left _ hmem)
    · rintro id chunk rfl
      exact hls id chunk (by simp)
  have horigin := hservers (fun id chunk hmem => hevents id chunk (List.mem_append_left _ hmem))
    _ hp
  cases horigin

/-- With one `Sender` and for all sessions added and closed, ticks and sends in any order:
    every client hears of a player before it moves or leaves exactly if every pop is
    timely. -/
theorem announced_iff (platform : Platform) (config : GameConfig) {events : List Event}
    (hevents : ∀ id chunk, Event.receive id chunk ∉ events) :
    Announced platform config events ↔ TimelyPops platform config events :=
  announced_iff_of_tame (tameRun_of_no_receive hevents)

/-- Session `1` is added when the player of session `0` has been announced to all, and
    before its first move has been sent. -/
def latecomer : List Event :=
  [.addSession 0, .tick 1, .send, .send, .send, .addSession 1, .send]

theorem announced_iff_latecomer :
    Announced .x86 .room latecomer ↔ TimelyPops .x86 .room latecomer :=
  announced_iff .x86 .room (by simp [latecomer])

instance (id : UInt64) (buf : List UInt8) : Decidable (MovesPlayer id buf) :=
  inferInstanceAs (Decidable (_ ∧ _))

/-- The first thing the client of a latecomer gets is the move of a player it has never
    heard of. -/
theorem latecomer_not_announced :
    ¬ ∀ events : List Event, (∀ id chunk, Event.receive id chunk ∉ events) →
      Announced .x86 .room events := by
  intro hclaim
  have heval : (latecomer.foldlM (System.step .x86 .room) {}).map (fun σ =>
      (decide (1 ∈ σ.server.sessions), (σ.server.received 1).map fun buf =>
        decide (MovesPlayer 0 buf))) = some (true, [true]) := by decide +kernel
  obtain ⟨σ, hrun, hout⟩ := Option.map_eq_some_iff.mp heval
  obtain ⟨hmem, hmoves⟩ := Prod.mk.inj hout
  obtain ⟨buf, rest, hreceived, hbuf, -⟩ := List.map_eq_cons_iff.mp hmoves
  have hlaw := hclaim latecomer (by simp [latecomer]) latecomer [] (by simp) σ
    (run_iff_foldlM.mpr hrun) 1 (of_decide_eq_true hmem) [] buf rest hreceived
  exact Since.not_nil ((hlaw 0).1 (of_decide_eq_true hbuf))

end EndlessPeak
