import EndlessPeak.Game.NullSafety
import EndlessPeak.Net.PacketHandler
import EndlessPeak.Net.Server

/-!
# The system: sessions, world and sender

The server and the world share two queues. Sessions come and go and deliver bytes,
the game loop ticks, and the sender thread takes packets from the network out
queue; each of these is one atomic step of `System.step`. A step is `none` if it
cannot be taken, or if the program dereferences a null pointer in it.

Next to the state of the program a `System` records every packet ever pushed to the
network inbound queue and who made it: those the world has processed, and those
still pending.

* `System.step_tick_eq_some`, `System.step_send_eq_some`: the two steps that can fail.
* `System.Sound`: the invariant of every run (`system_sound`).
-/

namespace EndlessPeak

open Lib

/-! ## Packets and who made them -/

/-- Who made a packet: the server itself, or a client. -/
inductive Origin where
  | server
  | client
  deriving DecidableEq, Repr

/-- A packet of the network inbound queue and who made it. -/
abbrev Entry := Origin × ServerPacket

instance decidableMemLog (e : Entry) (log : List Entry) : Decidable (e ∈ log) := inferInstance

/-- The `CreatePlayer` that `AddSession` pushes. -/
def created (id : UInt64) : Entry := (.server, .ofOpcode .createPlayer id)

/-- The `RemovePlayer` that `CloseSession` pushes. -/
def removed (id : UInt64) : Entry := (.server, .ofOpcode .removePlayer id)

theorem created_ne_removed (i j : UInt64) : created i ≠ removed j := by
  intro h
  have hop : (created i).2.opcode = (removed j).2.opcode := by rw [h]
  simp [created, removed] at hop

theorem created_inj {i j : UInt64} : created i = created j ↔ i = j := by
  simp [created, ServerPacket.ofOpcode]

theorem removed_inj {i j : UInt64} : removed i = removed j ↔ i = j := by
  simp [removed, ServerPacket.ofOpcode]

/-! ## State and steps -/

/-- The program between two atomic steps. -/
structure System where
  world : World := {}
  net : Subsystem := {}
  server : Server := {}
  readers : UInt64 → Reader := fun _ => {}
  processed : List Entry := []
  pending : List Entry := []

/-- What can happen next. -/
inductive Event where
  /-- The session with this id calls `AddSession`. -/
  | addSession (id : UInt64)
  /-- The session with this id calls `CloseSession`. -/
  | closeSession (id : UInt64)
  /-- The outstanding read of a session completes with these bytes. -/
  | receive (id : UInt64) (chunk : List UInt8)
  /-- The game loop runs `World::Tick`. -/
  | tick (dt : ℚ)
  /-- The sender thread handles the packet at the head of the out queue. -/
  | send

/-- The event is a tick of the world. -/
def Event.IsTick : Event → Prop
  | .tick _ => True
  | _ => False

instance : DecidablePred Event.IsTick := fun e => by
  cases e <;> unfold Event.IsTick <;> infer_instance

namespace System

/-- All packets pushed so far. -/
def history (σ : System) : List Entry := σ.processed ++ σ.pending

/-- `net_susbsystem_->in_queue_.Push`. -/
def pushIn (σ : System) (origin : Origin) (packets : List ServerPacket) : System :=
  { σ with
    net := { σ.net with inQueue := σ.net.inQueue ++ packets }
    pending := σ.pending ++ packets.map fun p => (origin, p) }

/-- One atomic step. `new_session_id_` gives every session its own id, and a session
    is added once; it reads only after that, and at most what it asked for. -/
def step (platform : Platform) (config : GameConfig) (σ : System) : Event → Option System
  | .addSession id =>
    if created id ∈ σ.history then none
    else
      let (server, packets) := σ.server.addSession id
      some ({ σ with server }.pushIn .server packets)
  | .closeSession id =>
    let (server, packets) := σ.server.closeSession id
    some ({ σ with server }.pushIn .server packets)
  | .receive id chunk =>
    if created id ∈ σ.history ∧ chunk.length ≤ (σ.readers id).limit then
      let (reader, packets) := (σ.readers id).onRead id chunk
      some ({ σ with readers := Function.update σ.readers id reader }.pushIn .client packets)
    else none
  | .tick dt =>
    (σ.world.tick platform config dt σ.net).map fun (world, net) =>
      { σ with world, net, processed := σ.history, pending := [] }
  | .send =>
    match σ.net.outQueue with
    | [] => none
    | packet :: rest => (σ.server.sender platform packet).map fun server =>
        { σ with server, net := { σ.net with outQueue := rest } }

end System

/-- The events can happen in this order from the start of the program, and lead to
    the last argument. -/
def SystemRun (platform : Platform) (config : GameConfig) : List Event → System → Prop :=
  Run (stepRel (System.step platform config)) {}

/-! ## What the steps do -/

namespace System

variable {platform : Platform} {config : GameConfig} {σ σ' : System} {e : Event} {dt : ℚ}
  {id : UInt64}

@[simp] theorem pushIn_history (origin : Origin) (packets : List ServerPacket) :
    (σ.pushIn origin packets).history = σ.history ++ packets.map fun p => (origin, p) := by
  simp [history, pushIn]

@[simp] theorem pushIn_server (origin : Origin) (packets : List ServerPacket) :
    (σ.pushIn origin packets).server = σ.server := rfl

@[simp] theorem pushIn_world (origin : Origin) (packets : List ServerPacket) :
    (σ.pushIn origin packets).world = σ.world := rfl

@[simp] theorem pushIn_processed (origin : Origin) (packets : List ServerPacket) :
    (σ.pushIn origin packets).processed = σ.processed := rfl

theorem step_addSession_eq_some : σ.step platform config (.addSession id) = some σ' ↔
    created id ∉ σ.history ∧
      σ' = { σ with server := (σ.server.addSession id).1 }.pushIn .server
        [.ofOpcode .createPlayer id] := by
  simp [step, Server.addSession, eq_comm]

/-- Closing a session that is not there does nothing. -/
theorem step_closeSession_eq_some : σ.step platform config (.closeSession id) = some σ' ↔
    σ' = if id ∈ σ.server.sessions then
        { σ with server := (σ.server.closeSession id).1 }.pushIn .server
          [.ofOpcode .removePlayer id]
      else σ := by
  by_cases h : id ∈ σ.server.sessions
  · simp [step, Server.closeSession, h, eq_comm]
  · have hpush : σ.pushIn .server [] = σ := by simp [pushIn]
    simp [step, Server.closeSession, h, hpush, eq_comm]

theorem step_receive_eq_some {chunk : List UInt8} :
    σ.step platform config (.receive id chunk) = some σ' ↔
      (created id ∈ σ.history ∧ chunk.length ≤ (σ.readers id).limit) ∧
        σ' = System.pushIn
          { σ with readers := Function.update σ.readers id ((σ.readers id).onRead id chunk).1 }
          .client ((σ.readers id).onRead id chunk).2 := by
  simp [step, eq_comm]

theorem step_tick_eq_some : σ.step platform config (.tick dt) = some σ' ↔
    ∃ world net, σ.world.tick platform config dt σ.net = some (world, net) ∧
      σ' = { σ with world, net, processed := σ.history, pending := [] } := by
  simp [step, eq_comm]

theorem step_send_eq_some : σ.step platform config .send = some σ' ↔
    ∃ packet rest server, σ.net.outQueue = packet :: rest ∧
      σ.server.sender platform packet = some server ∧
      σ' = { σ with server, net := { σ.net with outQueue := rest } } := by
  cases h : σ.net.outQueue with
  | nil => simp [step, h]
  | cons packet rest => simp [step, h, eq_comm]

/-! ## The invariant of every run -/

/-- The pending entries are the network inbound queue; the players are those that
    are live by the processed ones; no pointer in a map is null. -/
structure Sound (σ : System) : Prop where
  inQueue : σ.net.inQueue = σ.pending.map Prod.snd
  gameQueue : σ.world.game.inQueue = []
  agrees : World.Agrees (σ.processed.map Prod.snd) σ.world
  not_null : ∀ id, σ.world.players.lookup id ≠ some none
  sessions : σ.server.Sound

theorem sound_init : Sound {} where
  inQueue := rfl
  gameQueue := rfl
  agrees id := by simp [World.player?, Live]
  not_null id := by simp
  sessions id v hv := by simp at hv

/-- A step that only pushes packets and changes the session map. -/
theorem sound_pushIn (h : σ.Sound) {server : Server} {readers : UInt64 → Reader} (origin : Origin)
    (packets : List ServerPacket) (hserver : server.Sound) :
    ({ σ with server, readers }.pushIn origin packets).Sound where
  inQueue := by simp [pushIn, h.inQueue, Function.comp_def]
  gameQueue := h.gameQueue
  agrees := h.agrees
  not_null := h.not_null
  sessions := hserver

theorem sound_tick (h : σ.Sound) (hstep : σ.step platform config (.tick dt) = some σ') :
    σ'.Sound := by
  obtain ⟨world, net, htick, rfl⟩ := step_tick_eq_some.mp hstep
  obtain ⟨hgame, hnet⟩ := World.tick_inQueue htick
  obtain ⟨hagrees, hnull⟩ := World.agrees_tick h.agrees htick
  rw [h.inQueue, ← List.map_append] at hagrees
  exact ⟨hnet.trans h.gameQueue, hgame, hagrees, hnull, h.sessions⟩

theorem sound_step (h : σ.Sound) (hstep : σ.step platform config e = some σ') : σ'.Sound := by
  cases e with
  | addSession id =>
    obtain ⟨-, rfl⟩ := step_addSession_eq_some.mp hstep
    exact sound_pushIn h _ _ (Server.sound_addSession h.sessions id)
  | closeSession id =>
    obtain rfl := step_closeSession_eq_some.mp hstep
    split_ifs
    · exact sound_pushIn h _ _ (Server.sound_closeSession h.sessions id)
    · exact h
  | receive id chunk =>
    obtain ⟨-, rfl⟩ := step_receive_eq_some.mp hstep
    exact sound_pushIn h _ _ h.sessions
  | tick dt => exact sound_tick h hstep
  | send =>
    obtain ⟨packet, rest, server, hq, hsend, rfl⟩ := step_send_eq_some.mp hstep
    exact { h with sessions := Server.sound_sender h.sessions hsend }

theorem mem_history_step (hstep : σ.step platform config e = some σ') {entry : Entry}
    (hentry : entry ∈ σ.history) : entry ∈ σ'.history := by
  cases e with
  | addSession id =>
    obtain ⟨-, rfl⟩ := step_addSession_eq_some.mp hstep
    rw [pushIn_history]
    exact List.mem_append_left _ hentry
  | closeSession id =>
    obtain rfl := step_closeSession_eq_some.mp hstep
    split_ifs
    · rw [pushIn_history]
      exact List.mem_append_left _ hentry
    · exact hentry
  | receive id chunk =>
    obtain ⟨-, rfl⟩ := step_receive_eq_some.mp hstep
    rw [pushIn_history]
    exact List.mem_append_left _ hentry
  | tick dt =>
    obtain ⟨world, net, -, rfl⟩ := step_tick_eq_some.mp hstep
    exact List.mem_append_left _ hentry
  | send =>
    obtain ⟨packet, rest, server, -, -, rfl⟩ := step_send_eq_some.mp hstep
    exact hentry

/-- Only a tick processes packets. -/
theorem processed_step (hstep : σ.step platform config e = some σ') (he : ¬ e.IsTick) :
    σ'.processed = σ.processed := by
  cases e with
  | addSession id =>
    obtain ⟨-, rfl⟩ := step_addSession_eq_some.mp hstep
    rfl
  | closeSession id =>
    obtain rfl := step_closeSession_eq_some.mp hstep
    split_ifs <;> rfl
  | receive id chunk =>
    obtain ⟨-, rfl⟩ := step_receive_eq_some.mp hstep
    rfl
  | tick dt => exact absurd trivial he
  | send =>
    obtain ⟨packet, rest, server, -, -, rfl⟩ := step_send_eq_some.mp hstep
    rfl

end System

theorem system_sound {platform : Platform} {config : GameConfig} {events : List Event}
    {σ : System} (h : SystemRun platform config events σ) : σ.Sound :=
  h.invariant System.sound_init fun _ _ _ hσ hstep => System.sound_step hσ hstep

end EndlessPeak
