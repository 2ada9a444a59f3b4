import EndlessPeak.Net.System

/-!
# When the sender meets a missing session

The world decides whom a packet is for; `Sender` looks the sessions up when it takes
the packet from the out queue, ticks later. A packet to all sessions, or to all but
one, is resolved against the sessions that are there. A packet to one session is
resolved with `operator[]`, although `CloseSession` looks before it erases.

* `SenderSafe`: every packet reaches exactly the live sessions it is addressed to.
* `senderSafe_iff`: this holds exactly if no packet to one session is taken after
  that session has been closed.
* `close_before_send_crash`: a client that leaves before its own `CreatePlayer`
  packet is sent brings the sender down.
-/

namespace EndlessPeak

open Lib

/-- However far the events have got, no session pointer is null; and if `Sender` is
    next, it handles the packet it pops: every live session that the packet is
    addressed to is called once with the bytes of the packet, and no other. -/
def SenderSafe (platform : Platform) (config : GameConfig) (events : List Event) : Prop :=
  ∀ before after, events = before ++ after → ∀ σ, SystemRun platform config before σ →
    (∀ id, σ.server.sessions.lookup id ≠ some none) ∧
    ∀ packet rest, after.head? = some .send → σ.net.outQueue = packet :: rest →
      ∃ σ', σ.step platform config .send = some σ' ∧ σ'.net.outQueue = rest ∧
        ∃ ids, Server.Delivered packet.packet.makeBuffer ids σ.server σ'.server ∧
          ∀ id, id ∈ ids ↔ id ∈ σ.server.sessions ∧ packet.AddressedTo id

/-- Whenever `Sender` is next and pops a packet to one session, the session is there. -/
def RpcsLive (platform : Platform) (config : GameConfig) (events : List Event) : Prop :=
  ∀ before after, events = before ++ .send :: after → ∀ σ, SystemRun platform config before σ →
    ∀ packet rest, σ.net.outQueue = packet :: rest → packet.type = .rpc →
      packet.id ∈ σ.server.sessions

namespace System

variable {platform : Platform} {config : GameConfig} {σ : System} {packet : ServerPacket}
  {rest : List ServerPacket}

/-- The step of `Sender` on the packet at the head of the queue. -/
theorem step_send_cons (hqueue : σ.net.outQueue = packet :: rest) :
    σ.step platform config .send = (σ.server.sender platform packet).map fun server =>
      { σ with server, net := { σ.net with outQueue := rest } } := by
  simp [step, hqueue]

end System

/-- The sender is safe on the events exactly if every packet to one session finds its
    session. -/
theorem senderSafe_iff (platform : Platform) (config : GameConfig) (events : List Event) :
    SenderSafe platform config events ↔ RpcsLive platform config events := by
  constructor
  · rintro hsafe before after rfl σ hrun packet rest hqueue htype
    by_contra hgone
    obtain ⟨σ', hstep, -⟩ := (hsafe before (.send :: after) rfl σ hrun).2 packet rest rfl hqueue
    rw [System.step_send_cons hqueue, Server.sender_eq_none htype hgone] at hstep
    simp at hstep
  · rintro hlive before after rfl σ hrun
    have hsound := system_sound hrun
    constructor
    · intro id hnull
      exact absurd (hsound.sessions id none hnull) (by simp)
    · intro packet rest hhead hqueue
      obtain ⟨after, rfl⟩ : ∃ tail, after = .send :: tail := List.head?_eq_some_iff.mp hhead
      obtain ⟨server, hsend, hdelivered⟩ := Server.sender_eq_some platform hsound.sessions
        (hlive before after rfl σ hrun packet rest hqueue)
      refine ⟨_, by rw [System.step_send_cons hqueue, hsend, Option.map_some], rfl, hdelivered⟩

/-- A session is added, a tick creates its player, the session is closed: the packet
    that tells the client about its player is for a session that is gone. -/
theorem close_before_send_crash :
    ¬ ∀ events : List Event, (∀ id chunk, Event.receive id chunk ∉ events) →
      SenderSafe .x86 .room events := by
  intro hclaim
  have heval : ([Event.addSession 0, .tick 1, .closeSession 0].foldlM
      (System.step .x86 .room) {}).map (fun σ =>
        (σ.net.outQueue.isEmpty, (σ.step .x86 .room .send).isNone)) = some (false, true) := by
    decide +kernel
  obtain ⟨σ, hrun, hout⟩ := Option.map_eq_some_iff.mp heval
  obtain ⟨hempty, hcrash⟩ := Prod.mk.inj hout
  cases hqueue : σ.net.outQueue with
  | nil => simp [hqueue] at hempty
  | cons packet rest =>
    obtain ⟨σ', hstep, -⟩ := (hclaim [.addSession 0, .tick 1, .closeSession 0, .send] (by simp)
      [.addSession 0, .tick 1, .closeSession 0] [.send] rfl σ (run_iff_foldlM.mpr hrun)).2
        packet rest rfl hqueue
    simp [hstep] at hcrash

end EndlessPeak
