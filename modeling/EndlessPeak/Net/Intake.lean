import EndlessPeak.Net.Endpoint
import EndlessPeak.Net.Framing

/-!
# From the bytes of a client to the in queue

The completion handlers of many sessions push to one network in queue, a packet at a time,
and between two pushes of one handler other sessions and the server push. Taken apart by
client, what has been pushed and what the handler is about to push is the run of the read
loop of `Framing` on the chunks that the session has read.

* `intake_endpoint`: one step of a session.
* `Intake`: all sessions; `intake_step`.
-/

namespace EndlessPeak

open Lib

/-- What the session reads in this event. -/
def EndpointEvent.chunk : EndpointEvent → Option (List UInt8)
  | .readDone result => result
  | _ => none

/-- The packets that the handler is about to push. -/
def Place.packets : Place → List ServerPacket
  | .pushPackets packets => packets
  | _ => []

/-- The packets that clients have made. -/
def byClients (log : List Entry) : List ServerPacket :=
  (log.filter fun entry => entry.1 = .client).map Prod.snd

/-- Those of the client `id`. -/
def clientPackets (id : UInt64) (log : List Entry) : List ServerPacket :=
  (byClients log).filter fun packet => packet.id = id

theorem byClients_append (log log' : List Entry) :
    byClients (log ++ log') = byClients log ++ byClients log' := by
  rw [byClients, List.filter_append, List.map_append]
  rfl

theorem clientPackets_append (id : UInt64) (log log' : List Entry) :
    clientPackets id (log ++ log') = clientPackets id log ++ clientPackets id log' := by
  rw [clientPackets, byClients_append, List.filter_append]
  rfl

/-! ## One session -/

section Session

variable {e e' : Endpoint} {id : UInt64} {live live' : Bool} {out : List Entry}
  {event : EndpointEvent} {chunks : List (List UInt8)} {pushed : List ServerPacket}

theorem Endpoint.Free.packets (h : e.Free) : e.handler.packets = [] := by
  rw [h.1]
  rfl

/-- The next operation of a handler pushes at most the first packet that it is about to push. -/
theorem intake_handle (hstep : e.handle id live = some (e', live', out)) :
    e'.reader = e.reader ∧ byClients out ++ e'.handler.packets = e.handler.packets := by
  unfold Endpoint.handle at hstep
  cases hplace : e.handler with
  | idle => simp [hplace] at hstep
  | getState =>
    simp only [hplace] at hstep
    split at hstep <;> cases hstep <;> exact ⟨rfl, rfl⟩
  | eraseSession =>
    simp only [hplace] at hstep
    split_ifs at hstep <;> cases hstep <;> exact ⟨rfl, rfl⟩
  | pushPackets packets =>
    rw [hplace] at hstep
    cases packets <;> cases hstep <;> exact ⟨rfl, rfl⟩
  | setConnected | setDisconnecting | insertSession | pushCreate | readNext | close | pushRemove
  | setDisconnected =>
    rw [hplace] at hstep
    cases hstep
    exact ⟨rfl, rfl⟩

theorem byClients_out (hids : ∀ p ∈ e.handler.packets, p.id = id)
    (hstep : e.step id live event = some (e', live', out)) : ∀ p ∈ byClients out, p.id = id := by
  cases Endpoint.step_cases hstep with
  | handle hhandle =>
    intro p hp
    rw [← (intake_handle hhandle).2] at hids
    exact hids p (List.mem_append_left _ hp)
  | accepted | refused | readFailed | read | written | writeFailed | push | send =>
    intro p hp
    exact absurd hp List.not_mem_nil

/-- One step of a session is a step of the read loop, or it reads nothing. -/
theorem intake_endpoint
    (h : Run (readNext id) ({}, []) chunks (e.reader, pushed ++ e.handler.packets))
    (hstep : e.step id live event = some (e', live', out)) :
    Run (readNext id) ({}, []) (chunks ++ event.chunk.toList)
      (e'.reader, pushed ++ byClients out ++ e'.handler.packets) := by
  have hsame : event.chunk = none → e'.reader = e.reader →
      byClients out ++ e'.handler.packets = e.handler.packets →
      Run (readNext id) ({}, []) (chunks ++ event.chunk.toList)
        (e'.reader, pushed ++ byClients out ++ e'.handler.packets) := by
    intro hchunk hreader hpackets
    rw [hchunk, hreader, List.append_assoc, hpackets, Option.toList_none, List.append_nil]
    exact h
  by_cases hread : ∃ chunk, event = .readDone (some chunk)
  · obtain ⟨chunk, rfl⟩ := hread
    simp only [Endpoint.step, Option.ite_none_right_eq_some] at hstep
    obtain ⟨⟨-, hfree, hlimit⟩, hstep⟩ := hstep
    cases hstep
    rw [hfree.packets, List.append_nil] at h
    refine h.snoc ⟨hlimit, ?_⟩
    rw [show byClients [] = [] from rfl, List.append_nil]
    rfl
  · cases Endpoint.step_cases hstep with
    | accepted _ hfree | refused _ hfree | readFailed _ hfree | writeFailed _ hfree =>
      exact hsame rfl rfl hfree.packets.symm
    | read chunk => exact absurd ⟨chunk, rfl⟩ hread
    | written | push => exact hsame rfl rfl rfl
    | handle hhandle =>
      obtain ⟨hreader, hpackets⟩ := intake_handle hhandle
      exact hsame rfl hreader hpackets
    | send u send hsend =>
      have hsent : (e.sent u send).reader = e.reader ∧ (e.sent u send).handler = e.handler := by
        unfold Endpoint.sent
        split <;> exact ⟨rfl, rfl⟩
      exact hsame rfl hsent.1 (by rw [hsent.2]; rfl)

end Session

/-! ## All sessions -/

variable {σ σ' : Hub} {id : UInt64} {event : EndpointEvent} {chunks : UInt64 → List (List UInt8)}

/-- Every session has read its chunks, and has pushed, or is about to push, what the read loop
    makes of them. -/
def Intake (chunks : UInt64 → List (List UInt8)) (σ : Hub) : Prop :=
  ∀ id, Run (readNext id) ({}, []) (chunks id)
    ((σ.endpoint id).reader, clientPackets id σ.inQueue ++ (σ.endpoint id).handler.packets)

theorem intake_init : Intake (fun _ => []) {} := fun _ => .nil

/-- What the session `id` reads in a step of the session `j`. -/
def chunkFor (id j : UInt64) (event : EndpointEvent) : List (List UInt8) :=
  if j = id then event.chunk.toList else []

theorem intake_step (h : Intake chunks σ) (hstep : σ.step (id, event) = some σ') :
    Intake (fun j => chunks j ++ chunkFor j id event) σ' := by
  simp only [Hub.step, Option.map_eq_some_iff] at hstep
  obtain ⟨⟨e, live, out⟩, hself, rfl⟩ := hstep
  have hids : ∀ p ∈ (σ.endpoint id).handler.packets, p.id = id :=
    fun p hp => (accounts_run (h id)).ids p (List.mem_append_right _ hp)
  have hout := byClients_out hids hself
  intro j
  show Run (readNext j) ({}, []) (chunks j ++ chunkFor j id event)
    ((Function.update σ.endpoint id e j).reader,
      clientPackets j (σ.inQueue ++ out) ++ (Function.update σ.endpoint id e j).handler.packets)
  rw [clientPackets_append]
  by_cases hj : j = id
  · subst hj
    have hall : clientPackets j out = byClients out :=
      List.filter_eq_self.mpr fun p hp => by simpa using hout p hp
    rw [Function.update_self, chunkFor, if_pos rfl, hall]
    exact intake_endpoint (h j) hself
  · have hnone : clientPackets j out = [] :=
      List.filter_eq_nil_iff.mpr fun p hp => by simpa [hout p hp] using Ne.symm hj
    rw [Function.update_of_ne hj, chunkFor, if_neg (Ne.symm hj), hnone, List.append_nil,
      List.append_nil]
    exact h j

/-- What a session has pushed, or is about to push, are the frames of its bytes. -/
theorem Intake.frames (h : Intake chunks σ) (id : UInt64) :
    (clientPackets id σ.inQueue ++ (σ.endpoint id).handler.packets).map
      (fun p => (p.id, p.packet.frame)) =
        (parse (chunks id).flatten).map fun f => (id, some f) :=
  (accounts_run (h id)).pushed_eq

end EndlessPeak
