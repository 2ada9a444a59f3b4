import EndlessPeak.Net.Framing
import EndlessPeak.Net.SendQueue
import EndlessPeak.Net.System

/-!
# The life of a session

Model of `Session` (`net/session/session.cpp`): its state machine (`Run`,
`ProcessState`, lines 27–82) and the completion handlers of its accept, its reads
and its writes. The handlers of one session run one at a time, in any order, and
between those of other sessions. An operation is first started, then it completes
with success or an error, and later its handler runs. Closing the socket makes the
operations fail that are still going on; one that has completed keeps its result.

* `Phase`: the phases of a session and what it has pushed in each (`phase_step`).
* `Receiving`: the read loop of a session has got the bytes that its socket has delivered, but
  for those of a read whose handler has not run yet (`receiving_step`).
* `Discreet`: of the bytes that a session has got, those of a read whose handler runs
  after the session has been torn down complete no frame.
* `sessionLogs_iff`: nothing follows the removal of a session exactly in the runs that
  are discreet.
* `read_handler_after_removal`: a failed write can come between a read and its handler.
-/

namespace EndlessPeak

open Lib

/-! ## Model -/

/-- An asynchronous operation: not going on, started, or completed with a result
    while its handler has not run yet. -/
inductive Op (R : Type) where
  | idle
  | started
  | completed (result : R)
  deriving DecidableEq, Repr

/-- `class Session`, without `out_queue_`. A result of the accept or of a write is
    whether it succeeded; a result of a read is the bytes, or `none` for an error. -/
structure Session where
  state : SessionState := .connecting
  closed : Bool := false
  accept : Op Bool := .started
  reader : Reader := {}
  read : Op (Option (List UInt8)) := .idle
  write : Op Bool := .idle
  sending : Bool := false

/-- The network side: the server, the sessions by their ids (`Server::Run` gives each
    its own, and starts its accept), and what has been pushed to the inbound queue. -/
structure Network where
  server : Server := {}
  session : UInt64 → Session := fun _ => {}
  pushed : List Entry := []

namespace Network

/-- The session `id` is changed by `f`. -/
def modify (σ : Network) (id : UInt64) (f : Session → Session) : Network :=
  { σ with session := Function.update σ.session id (f (σ.session id)) }

/-- `net_susbsystem_->in_queue_.Push`. -/
def push (σ : Network) (origin : Origin) (packets : List ServerPacket) : Network :=
  { σ with pushed := σ.pushed ++ packets.map fun p => (origin, p) }

/-- `server_->AddSession(shared_from_this())`. -/
def addSession (σ : Network) (id : UInt64) : Network :=
  let (server, packets) := σ.server.addSession id
  { σ with server }.push .server packets

/-- `server_->CloseSession(id_)`. -/
def closeSession (σ : Network) (id : UInt64) : Network :=
  let (server, packets) := σ.server.closeSession id
  { σ with server }.push .server packets

/-- `ProcessState`. -/
def processState (σ : Network) (id : UInt64) : Network :=
  match (σ.session id).state with
  | .connected => (σ.addSession id).modify id fun s => { s with read := .started }
  | .disconnecting =>
    ((σ.modify id fun s => { s with closed := true }).closeSession id).modify id fun s =>
      { s with state := .disconnected }
  | _ => σ

/-- `SetDisconnecting(); ProcessState();`, the error path of a read or a write. -/
def disconnect (σ : Network) (id : UInt64) : Network :=
  (σ.modify id fun s => { s with state := .disconnecting }).processState id

/-- The completion handler of `async_accept`. -/
def onAccept (σ : Network) (id : UInt64) (success : Bool) : Network :=
  (σ.modify id fun s => { s with
    accept := .idle
    state := if success then .connected else .disconnecting }).processState id

/-- The completion handler of `async_read_some`, in `ReadPacketHead` or
    `ReadPacketBody`: on success it may push a packet, and starts the next read. -/
def onRead (σ : Network) (id : UInt64) (result : Option (List UInt8)) : Network :=
  match result with
  | none => (σ.modify id fun s => { s with read := .idle }).disconnect id
  | some chunk =>
    let (reader, packets) := (σ.session id).reader.onRead id chunk
    (σ.modify id fun s => { s with reader, read := .started }).push .client packets

/-- The completion handler of `async_write`. -/
def onWrite (σ : Network) (id : UInt64) (success : Bool) : Network :=
  if success then σ.modify id fun s => { s with write := .idle, sending := false }
  else (σ.modify id fun s => { s with write := .idle }).disconnect id

end Network

/-- What can happen next to a session. -/
inductive SessionEvent where
  /-- The accept completes. -/
  | acceptDone (success : Bool)
  /-- The outstanding read completes, with these bytes or with an error. -/
  | readDone (result : Option (List UInt8))
  /-- The outstanding write completes. -/
  | writeDone (success : Bool)
  /-- `Send` starts a write. -/
  | startWrite
  | acceptHandler
  | readHandler
  | writeHandler
  deriving DecidableEq, Repr

namespace Network

/-- One step of the session `id`. Nothing succeeds on a closed socket; a read gets at
    most the bytes it asked for. `Send` may have looked at the state of the session
    long before it starts the write, but the session has been added by then. -/
def step (σ : Network) : UInt64 × SessionEvent → Option Network
  | (id, .acceptDone success) =>
    if (σ.session id).accept = .started ∧ (success → (σ.session id).closed = false) then
      some (σ.modify id fun s => { s with accept := .completed success })
    else none
  | (id, .readDone result) =>
    if (σ.session id).read = .started ∧ (∀ chunk ∈ result,
        (σ.session id).closed = false ∧ chunk.length ≤ (σ.session id).reader.limit) then
      some (σ.modify id fun s => { s with read := .completed result })
    else none
  | (id, .writeDone success) =>
    if (σ.session id).write = .started ∧ (success → (σ.session id).closed = false) then
      some (σ.modify id fun s => { s with write := .completed success })
    else none
  | (id, .startWrite) =>
    if created id ∈ σ.pushed ∧ (σ.session id).sending = false then
      some (σ.modify id fun s => { s with write := .started, sending := true })
    else none
  | (id, .acceptHandler) =>
    match (σ.session id).accept with
    | .completed success => some (σ.onAccept id success)
    | _ => none
  | (id, .readHandler) =>
    match (σ.session id).read with
    | .completed result => some (σ.onRead id result)
    | _ => none
  | (id, .writeHandler) =>
    match (σ.session id).write with
    | .completed success => some (σ.onWrite id success)
    | _ => none

end Network

/-- The events can happen in this order from the start of the server, and lead to the
    last argument. -/
def NetworkRun : List (UInt64 × SessionEvent) → Network → Prop := Run (stepRel Network.step) {}

/-! ## What the functions do -/

namespace Network

variable {σ σ' : Network} {id j : UInt64} {e : SessionEvent}

/-- What has been pushed with the tag `id`. -/
def log (σ : Network) (id : UInt64) : List Entry := σ.pushed.filter fun e => e.2.id = id

theorem modify_session (σ : Network) (id j : UInt64) (f : Session → Session) :
    (σ.modify id f).session j = if j = id then f (σ.session id) else σ.session j := by
  simp [modify, Function.update_apply]

@[simp] theorem modify_self (f : Session → Session) :
    (σ.modify id f).session id = f (σ.session id) := by
  simp [modify]

@[simp] theorem modify_server (f : Session → Session) : (σ.modify id f).server = σ.server := rfl
@[simp] theorem modify_log (f : Session → Session) : (σ.modify id f).log j = σ.log j := rfl

theorem push_log (origin : Origin) {packets : List ServerPacket} (h : ∀ p ∈ packets, p.id = id) :
    (σ.push origin packets).log j =
      σ.log j ++ if j = id then packets.map fun p => (origin, p) else [] := by
  rw [log, push, List.filter_append]
  congr 1
  split_ifs with hj
  · rw [List.filter_eq_self]
    simpa [hj] using h
  · rw [List.filter_eq_nil_iff]
    rintro ⟨o, p⟩ hp
    obtain ⟨q, hq, heq⟩ := List.mem_map.mp hp
    obtain ⟨-, rfl⟩ := Prod.mk.inj heq
    simpa [h q hq] using Ne.symm hj

@[simp] theorem push_session (origin : Origin) (packets : List ServerPacket) :
    (σ.push origin packets).session = σ.session := rfl
@[simp] theorem push_server (origin : Origin) (packets : List ServerPacket) :
    (σ.push origin packets).server = σ.server := rfl
@[simp] theorem addSession_session : (σ.addSession id).session = σ.session := rfl
@[simp] theorem closeSession_session : (σ.closeSession id).session = σ.session := rfl

theorem mem_addSession :
    j ∈ (σ.addSession id).server.sessions ↔ j = id ∨ j ∈ σ.server.sessions := by
  simp [addSession, Server.addSession]

theorem addSession_log :
    (σ.addSession id).log j = σ.log j ++ if j = id then [created id] else [] :=
  push_log (σ := { σ with server := _ }) .server (by simp)

theorem mem_closeSession :
    j ∈ (σ.closeSession id).server.sessions ↔ j ≠ id ∧ j ∈ σ.server.sessions := by
  simp only [closeSession, Server.closeSession, push_server]
  split_ifs with h
  · simp
  · constructor
    · intro hj
      exact ⟨fun heq => h (heq ▸ hj), hj⟩
    · exact fun hj => hj.2

theorem closeSession_log : (σ.closeSession id).log j =
    σ.log j ++ if j = id ∧ id ∈ σ.server.sessions then [removed id] else [] := by
  by_cases h : id ∈ σ.server.sessions
  · simp only [closeSession, Server.closeSession, h, if_true, and_true]
    exact push_log (σ := { σ with server := _ }) .server (by simp)
  · simp [closeSession, Server.closeSession, h, push, log]

/-- A handler runs on the result of its operation. -/
theorem step_acceptHandler_eq_some : σ.step (id, .acceptHandler) = some σ' ↔
    ∃ success, (σ.session id).accept = .completed success ∧ σ' = σ.onAccept id success := by
  cases h : (σ.session id).accept <;> simp [step, h, eq_comm]

theorem step_readHandler_eq_some : σ.step (id, .readHandler) = some σ' ↔
    ∃ result, (σ.session id).read = .completed result ∧ σ' = σ.onRead id result := by
  cases h : (σ.session id).read <;> simp [step, h, eq_comm]

theorem step_writeHandler_eq_some : σ.step (id, .writeHandler) = some σ' ↔
    ∃ success, (σ.session id).write = .completed success ∧ σ' = σ.onWrite id success := by
  cases h : (σ.session id).write <;> simp [step, h, eq_comm]

theorem processState_connected (h : (σ.session id).state = .connected) :
    σ.processState id = (σ.addSession id).modify id fun s => { s with read := .started } := by
  simp [processState, h]

theorem processState_disconnecting (h : (σ.session id).state = .disconnecting) :
    σ.processState id =
      ((σ.modify id fun s => { s with closed := true }).closeSession id).modify id fun s =>
        { s with state := .disconnected } := by
  simp [processState, h]

theorem disconnect_session :
    (σ.disconnect id).session id =
      { σ.session id with state := .disconnected, closed := true } := by
  simp [disconnect, processState_disconnecting]

theorem mem_disconnect :
    j ∈ (σ.disconnect id).server.sessions ↔ j ≠ id ∧ j ∈ σ.server.sessions := by
  simp [disconnect, processState_disconnecting, mem_closeSession]

theorem disconnect_log : (σ.disconnect id).log j =
    σ.log j ++ if j = id ∧ id ∈ σ.server.sessions then [removed id] else [] := by
  rw [disconnect, processState_disconnecting (by simp), modify_log, closeSession_log]
  rfl

/-- A read that completes a frame pushes it with the id of the session. -/
theorem id_of_onRead {r : Reader} {chunk : List UInt8} {p : ServerPacket}
    (h : p ∈ (r.onRead id chunk).2) : p.id = id := by
  simp only [Reader.onRead, Reader.onReadHead, Reader.onReadBody, Reader.pushPacket] at h
  split at h <;> split_ifs at h <;> simp_all

/-! ## The other sessions -/

/-- A step of another session leaves the session, its place in the map and what it has
    pushed alone. -/
structure Same (id : UInt64) (σ σ' : Network) : Prop where
  session : σ'.session id = σ.session id
  mem : id ∈ σ'.server.sessions ↔ id ∈ σ.server.sessions
  log : σ'.log id = σ.log id

theorem Same.trans {σ₁ σ₂ σ₃ : Network} (h : Same j σ₁ σ₂) (h' : Same j σ₂ σ₃) : Same j σ₁ σ₃ :=
  ⟨h'.session.trans h.session, h'.mem.trans h.mem, h'.log.trans h.log⟩

theorem same_modify (hj : j ≠ id) (f : Session → Session) : Same j σ (σ.modify id f) :=
  ⟨by rw [modify_session, if_neg hj], Iff.rfl, rfl⟩

theorem same_addSession (hj : j ≠ id) : Same j σ (σ.addSession id) :=
  ⟨rfl, by simp [mem_addSession, hj], by simp [addSession_log, hj]⟩

theorem same_closeSession (hj : j ≠ id) : Same j σ (σ.closeSession id) :=
  ⟨rfl, by simp [mem_closeSession, hj], by simp [closeSession_log, hj]⟩

theorem same_push (hj : j ≠ id) (origin : Origin) {packets : List ServerPacket}
    (h : ∀ p ∈ packets, p.id = id) : Same j σ (σ.push origin packets) :=
  ⟨rfl, Iff.rfl, by rw [push_log origin h, if_neg hj, List.append_nil]⟩

theorem same_processState (hj : j ≠ id) : Same j σ (σ.processState id) := by
  unfold processState
  split
  · exact (same_addSession hj).trans (same_modify hj _)
  · exact ((same_modify hj _).trans (same_closeSession hj)).trans (same_modify hj _)
  · exact ⟨rfl, Iff.rfl, rfl⟩

theorem same_disconnect (hj : j ≠ id) : Same j σ (σ.disconnect id) :=
  (same_modify hj _).trans (same_processState hj)

theorem same_onRead (hj : j ≠ id) (result : Option (List UInt8)) :
    Same j σ (σ.onRead id result) := by
  cases result with
  | none => exact (same_modify hj _).trans (same_disconnect hj)
  | some chunk => exact (same_modify hj _).trans (same_push hj .client fun p hp => id_of_onRead hp)

theorem same_step (hj : j ≠ id) (hstep : σ.step (id, e) = some σ') : Same j σ σ' := by
  cases e with
  | acceptDone success | readDone result | writeDone success | startWrite =>
    simp only [step, Option.ite_none_right_eq_some, Option.some_inj] at hstep
    obtain ⟨-, rfl⟩ := hstep
    exact same_modify hj _
  | acceptHandler =>
    obtain ⟨success, -, rfl⟩ := step_acceptHandler_eq_some.mp hstep
    exact (same_modify hj _).trans (same_processState hj)
  | readHandler =>
    obtain ⟨result, -, rfl⟩ := step_readHandler_eq_some.mp hstep
    exact same_onRead hj _
  | writeHandler =>
    obtain ⟨success, -, rfl⟩ := step_writeHandler_eq_some.mp hstep
    unfold onWrite
    split_ifs
    · exact same_modify hj _
    · exact (same_modify hj _).trans (same_disconnect hj)

/-! ## The phases of a session -/

/-- The client packets of a log. -/
def fromClient (packets : List ServerPacket) : List Entry := packets.map fun p => (.client, p)

/-- The session has been added; its packets and possibly its removal have followed. -/
inductive Added (id : UInt64) (σ : Network) : Prop
  | connected (packets : List ServerPacket) (state : (σ.session id).state = .connected)
      (mem : id ∈ σ.server.sessions) (log : σ.log id = created id :: fromClient packets)
  | removed (packets : List ServerPacket) (state : (σ.session id).state = .disconnected)
      (gone : id ∉ σ.server.sessions)
      (log : σ.log id = created id :: fromClient packets ++ [removed id])

/-- Nothing has been pushed for the session, and it neither reads nor writes. -/
structure Silent (id : UInt64) (σ : Network) : Prop where
  read : (σ.session id).read = .idle
  write : (σ.session id).write = .idle
  gone : id ∉ σ.server.sessions
  log : σ.log id = []

/-- The phases of a session. -/
inductive Phase (id : UInt64) (σ : Network) : Prop
  | connecting (state : (σ.session id).state = .connecting)
      (accept : (σ.session id).accept ≠ .idle) (silent : Silent id σ)
  | refused (state : (σ.session id).state = .disconnected)
      (accept : (σ.session id).accept = .idle) (silent : Silent id σ)
  | added (accept : (σ.session id).accept = .idle) (h : Added id σ)

theorem Same.added (hsame : Same j σ σ') (h : Added j σ) : Added j σ' := by
  cases h with
  | connected packets state mem log =>
    exact .connected packets (hsame.session ▸ state) (hsame.mem.mpr mem) (hsame.log.trans log)
  | removed packets state gone log =>
    exact .removed packets (hsame.session ▸ state) (mt hsame.mem.mp gone) (hsame.log.trans log)

theorem Same.silent (hsame : Same j σ σ') (h : Silent j σ) : Silent j σ' :=
  ⟨hsame.session ▸ h.read, hsame.session ▸ h.write, mt hsame.mem.mp h.gone,
    hsame.log.trans h.log⟩

theorem Same.phase (hsame : Same j σ σ') (h : Phase j σ) : Phase j σ' := by
  cases h with
  | connecting state accept silent =>
    exact .connecting (hsame.session ▸ state) (hsame.session ▸ accept) (hsame.silent silent)
  | refused state accept silent =>
    exact .refused (hsame.session ▸ state) (hsame.session ▸ accept) (hsame.silent silent)
  | added accept h => exact .added (hsame.session ▸ accept) (hsame.added h)

/-- A change of the session that keeps its state. -/
theorem Added.modify {f : Session → Session} (h : Added id σ)
    (hf : (f (σ.session id)).state = (σ.session id).state) : Added id (σ.modify id f) := by
  cases h with
  | connected packets state mem log =>
    exact .connected packets (by rw [modify_self, hf, state]) mem log
  | removed packets state gone log =>
    exact .removed packets (by rw [modify_self, hf, state]) gone log

theorem Added.disconnect (h : Added id σ) : Added id (σ.disconnect id) := by
  have hstate : ((σ.disconnect id).session id).state = .disconnected := by
    rw [disconnect_session]
  have hgone : id ∉ (σ.disconnect id).server.sessions := by simp [mem_disconnect]
  cases h with
  | connected packets state mem log =>
    exact .removed packets hstate hgone (by simp [disconnect_log, log, mem])
  | removed packets state gone log =>
    exact .removed packets hstate hgone (by simp [disconnect_log, log, gone])

/-- A successful read pushes what it completes. -/
theorem onRead_log (chunk : List UInt8) : (σ.onRead id (some chunk)).log id =
    σ.log id ++ fromClient ((σ.session id).reader.onRead id chunk).2 := by
  simp only [Network.onRead]
  rw [push_log .client fun p hp => id_of_onRead hp, if_pos rfl]
  rfl

/-- A successful read keeps the phase, unless it completes a frame too late. -/
theorem Added.onRead {chunk : List UInt8} (h : Added id σ)
    (hdiscreet : (σ.session id).state = .disconnected →
      ((σ.session id).reader.onRead id chunk).2 = []) :
    Added id (σ.onRead id (some chunk)) := by
  cases h with
  | connected packets state mem log =>
    refine .connected (packets ++ ((σ.session id).reader.onRead id chunk).2) ?_ mem ?_
    · simpa [Network.onRead] using state
    · rw [onRead_log, log]
      simp [fromClient]
  | removed packets state gone log =>
    refine .removed packets ?_ gone ?_
    · simpa [Network.onRead] using state
    · rw [onRead_log, log, hdiscreet state]
      simp [fromClient]

/-- A session that reads or writes, or may start to write, has been added. -/
theorem Phase.of_active (h : Phase id σ) (hactive : (σ.session id).read ≠ .idle ∨
    (σ.session id).write ≠ .idle ∨ created id ∈ σ.pushed) :
    (σ.session id).accept = .idle ∧ Added id σ := by
  have hnot : ¬ Silent id σ := by
    intro hsilent
    rcases hactive with hread | hwrite | hcreated
    · exact hread hsilent.read
    · exact hwrite hsilent.write
    · have hmem : created id ∈ σ.log id := List.mem_filter.mpr ⟨hcreated, by simp [created]⟩
      simp [hsilent.log] at hmem
  cases h with
  | connecting _ _ silent | refused _ _ silent => exact absurd silent hnot
  | added accept h => exact ⟨accept, h⟩

theorem Phase.of_accept (h : Phase id σ) (haccept : (σ.session id).accept ≠ .idle) :
    (σ.session id).state = .connecting ∧ Silent id σ := by
  cases h with
  | connecting state _ silent => exact ⟨state, silent⟩
  | refused _ accept _ | added accept _ => exact absurd accept haccept

theorem phase_acceptHandler (h : Phase id σ) {success : Bool}
    (haccept : (σ.session id).accept ≠ .idle) : Phase id (σ.onAccept id success) := by
  obtain ⟨-, hsilent⟩ := h.of_accept haccept
  unfold onAccept
  cases success with
  | true =>
    rw [processState_connected (by simp)]
    refine .added (by simp) (.connected [] (by simp) ?_ ?_)
    · simp [mem_addSession]
    · simp [addSession_log, hsilent.log, fromClient]
  | false =>
    rw [processState_disconnecting (by simp)]
    refine .refused (by simp) (by simp) ⟨by simp [hsilent.read], by simp [hsilent.write], ?_, ?_⟩
    · simp [mem_closeSession]
    · simp [closeSession_log, hsilent.log, hsilent.gone]

/-- The read handler of `id` is next, after a successful read of `chunk`, and the
    session has been torn down. -/
def LateRead (σ : Network) (id : UInt64) (chunk : List UInt8) : Prop :=
  (σ.session id).state = .disconnected ∧ (σ.session id).read = .completed (some chunk)

/-- A step of a session stays within the phases, if a late read completes no frame. -/
theorem phase_step (h : Phase id σ) (hstep : σ.step (id, e) = some σ')
    (hdiscreet : e = .readHandler → ∀ chunk, LateRead σ id chunk →
      ((σ.session id).reader.onRead id chunk).2 = []) : Phase id σ' := by
  cases e with
  | acceptDone success =>
    simp only [step, Option.ite_none_right_eq_some, Option.some_inj] at hstep
    obtain ⟨⟨haccept, -⟩, rfl⟩ := hstep
    obtain ⟨hstate, hsilent⟩ := h.of_accept (by simp [haccept])
    exact .connecting (by simp [hstate]) (by simp)
      ⟨by simp [hsilent.read], by simp [hsilent.write], hsilent.gone, hsilent.log⟩
  | readDone result =>
    simp only [step, Option.ite_none_right_eq_some, Option.some_inj] at hstep
    obtain ⟨⟨hread, -⟩, rfl⟩ := hstep
    obtain ⟨haccept, hadded⟩ := h.of_active (.inl (by simp [hread]))
    exact .added (by simp [haccept]) (hadded.modify rfl)
  | writeDone success =>
    simp only [step, Option.ite_none_right_eq_some, Option.some_inj] at hstep
    obtain ⟨⟨hwrite, -⟩, rfl⟩ := hstep
    obtain ⟨haccept, hadded⟩ := h.of_active (.inr (.inl (by simp [hwrite])))
    exact .added (by simp [haccept]) (hadded.modify rfl)
  | startWrite =>
    simp only [step, Option.ite_none_right_eq_some, Option.some_inj] at hstep
    obtain ⟨⟨hcreated, -⟩, rfl⟩ := hstep
    obtain ⟨haccept, hadded⟩ := h.of_active (.inr (.inr hcreated))
    exact .added (by simp [haccept]) (hadded.modify rfl)
  | acceptHandler =>
    obtain ⟨success, haccept, rfl⟩ := step_acceptHandler_eq_some.mp hstep
    exact phase_acceptHandler h (by simp [haccept])
  | readHandler =>
    obtain ⟨result, hread, rfl⟩ := step_readHandler_eq_some.mp hstep
    obtain ⟨haccept, hadded⟩ := h.of_active (.inl (by simp [hread]))
    cases result with
    | none =>
      exact .added (by simp [onRead, disconnect_session, haccept]) (hadded.modify rfl).disconnect
    | some chunk =>
      exact .added (by simp [onRead, haccept])
        (hadded.onRead fun hstate => hdiscreet rfl chunk ⟨hstate, hread⟩)
  | writeHandler =>
    obtain ⟨success, hwrite, rfl⟩ := step_writeHandler_eq_some.mp hstep
    obtain ⟨haccept, hadded⟩ := h.of_active (.inr (.inl (by simp [hwrite])))
    cases success with
    | true =>
      have hok : σ.onWrite id true =
          σ.modify id fun s => { s with write := .idle, sending := false } := rfl
      exact .added (by simp [hok, haccept]) (hok ▸ hadded.modify rfl)
    | false =>
      exact .added (by simp [onWrite, disconnect_session, haccept]) (hadded.modify rfl).disconnect

theorem phase_init (id : UInt64) : Phase id {} :=
  .connecting rfl (by simp) ⟨rfl, rfl, by simp, rfl⟩

end Network

/-! ## The bytes of a session -/

/-- The bytes of a read that has succeeded. -/
def SessionEvent.chunk : SessionEvent → Option (List UInt8)
  | .readDone result => result
  | _ => none

/-- What the socket of the session `id` has delivered, read by read. -/
def chunksRead (id : UInt64) (events : List (UInt64 × SessionEvent)) : List (List UInt8) :=
  (events.filter fun e => e.1 = id).filterMap fun e => e.2.chunk

/-- The bytes of a read whose handler has not run yet. -/
def Op.waiting : Op (Option (List UInt8)) → Option (List UInt8)
  | .completed result => result
  | _ => none

/-- The read loop of a session has handled the chunks that its socket has delivered, but for the
    one of a read whose handler has not run yet. There is no read before the accept is over. -/
structure Receiving (id : UInt64) (chunks : List (List UInt8)) (s : Session) : Prop where
  fresh : s.accept = .idle ∨ s.read = .idle
  fits : ∀ chunk ∈ s.read.waiting, chunk.length ≤ s.reader.limit
  handled : ∃ handled pushed, Run (readNext id) ({}, []) handled (s.reader, pushed) ∧
    chunks = handled ++ s.read.waiting.toList

namespace Receiving

variable {id : UInt64} {chunks : List (List UInt8)} {s s' : Session}

theorem keep (h : Receiving id chunks s) (haccept : s'.accept = s.accept)
    (hreader : s'.reader = s.reader) (hread : s'.read = s.read) :
    Receiving id (chunks ++ []) s' := by
  rw [List.append_nil]
  exact ⟨by rw [haccept, hread]; exact h.fresh, by rw [hread, hreader]; exact h.fits,
    by rw [hreader, hread]; exact h.handled⟩

/-- A read that does not wait for its handler is replaced by another one. -/
theorem replace (h : Receiving id chunks s) (hnone : s.read.waiting = none)
    (hfresh : s'.accept = .idle ∨ s'.read = .idle) (hreader : s'.reader = s.reader)
    (hnone' : s'.read.waiting = none) : Receiving id (chunks ++ []) s' := by
  obtain ⟨handled, pushed, hrun, hchunks⟩ := h.handled
  refine ⟨hfresh, by simp [hnone'], handled, pushed, by rwa [hreader], ?_⟩
  rw [List.append_nil, hchunks, hnone, hnone']

end Receiving

namespace Network

variable {σ σ' : Network} {id : UInt64} {e : SessionEvent} {chunks : List (List UInt8)}

theorem receiving_step (h : Receiving id chunks (σ.session id)) (hstep : σ.step (id, e) = some σ') :
    Receiving id (chunks ++ e.chunk.toList) (σ'.session id) := by
  cases e with
  | acceptDone success =>
    simp only [step, Option.ite_none_right_eq_some, Option.some_inj] at hstep
    obtain ⟨⟨haccept, -⟩, rfl⟩ := hstep
    have hread := h.fresh.resolve_left (by simp [haccept])
    exact h.replace (by rw [hread]; rfl) (.inr (by simp [hread])) (by simp) (by simp [hread]; rfl)
  | readDone result =>
    simp only [step, Option.ite_none_right_eq_some, Option.some_inj] at hstep
    obtain ⟨⟨hread, hresult⟩, rfl⟩ := hstep
    have haccept := h.fresh.resolve_right (by simp [hread])
    obtain ⟨handled, pushed, hrun, rfl⟩ := h.handled
    refine ⟨.inl (by simp [haccept]), ?_, handled, pushed, by simpa using hrun, ?_⟩
    · simp only [modify_self]
      exact fun chunk hchunk => (hresult chunk hchunk).2
    · rw [hread, show (Op.started : Op (Option (List UInt8))).waiting = none from rfl]
      simp [Op.waiting, SessionEvent.chunk]
  | writeDone success | startWrite =>
    simp only [step, Option.ite_none_right_eq_some, Option.some_inj] at hstep
    obtain ⟨-, rfl⟩ := hstep
    exact h.keep (by simp) (by simp) (by simp)
  | acceptHandler =>
    obtain ⟨success, haccept, rfl⟩ := step_acceptHandler_eq_some.mp hstep
    have hread := h.fresh.resolve_left (by simp [haccept])
    have hnone : (σ.session id).read.waiting = none := by rw [hread]; rfl
    unfold onAccept
    cases success with
    | true =>
      rw [processState_connected (by simp)]
      exact h.replace hnone (.inl (by simp)) (by simp) (by simp; rfl)
    | false =>
      rw [processState_disconnecting (by simp)]
      exact h.replace hnone (.inl (by simp)) (by simp) (by simp [hnone])
  | readHandler =>
    obtain ⟨result, hread, rfl⟩ := step_readHandler_eq_some.mp hstep
    have haccept := h.fresh.resolve_right (by simp [hread])
    cases result with
    | none =>
      have hnone : (σ.session id).read.waiting = none := by rw [hread]; rfl
      exact h.replace hnone (.inl (by simp [onRead, disconnect_session, haccept]))
        (by simp [onRead, disconnect_session]) (by simp [onRead, disconnect_session]; rfl)
    | some chunk =>
      obtain ⟨handled, pushed, hrun, rfl⟩ := h.handled
      have hlimit := h.fits chunk (by rw [hread]; rfl)
      refine ⟨.inl (by simp [onRead, haccept]), by simp [onRead, Op.waiting],
        handled ++ [chunk], _, hrun.snoc ⟨hlimit, by simp [onRead]; rfl⟩, ?_⟩
      simp [onRead, hread, Op.waiting, SessionEvent.chunk]
  | writeHandler =>
    obtain ⟨success, hwrite, rfl⟩ := step_writeHandler_eq_some.mp hstep
    unfold onWrite
    cases success with
    | true => exact h.keep (by simp) (by simp) (by simp)
    | false =>
      exact h.keep (by simp [disconnect_session]) (by simp [disconnect_session])
        (by simp [disconnect_session])

end Network

/-! ## Runs -/

variable {events : List (UInt64 × SessionEvent)} {σ : Network}

/-- In every run, the read loop of a session has got its bytes. -/
theorem receiving_run (h : NetworkRun events σ) (id : UInt64) :
    Receiving id (chunksRead id events) (σ.session id) := by
  induction h with
  | nil => exact ⟨.inr rfl, by simp [Op.waiting], [], [], .nil, rfl⟩
  | @snoc ls e τ τ' hrun hstep ih =>
    obtain ⟨j, e⟩ := e
    have hsnoc : chunksRead id (ls ++ [(j, e)]) =
        chunksRead id ls ++ if j = id then e.chunk.toList else [] := by
      rw [chunksRead, List.filter_append, List.filterMap_append]
      split_ifs with hj
      · cases hchunk : e.chunk <;> simp [chunksRead, hj, hchunk]
      · simp [chunksRead, hj]
    rw [hsnoc]
    split_ifs with hj
    · subst hj
      exact Network.receiving_step ih hstep
    · rw [List.append_nil, (Network.same_step (Ne.symm hj) hstep).session]
      exact ih

/-- The handler of a read pushes nothing exactly if the bytes of the read complete no frame: the
    parser finds in all bytes what it finds in those before. -/
theorem onRead_eq_nil_iff {id : UInt64} {chunks : List (List UInt8)} {s : Session}
    (h : Receiving id chunks s) {chunk : List UInt8} (hread : s.read = .completed (some chunk)) :
    (s.reader.onRead id chunk).2 = [] ↔ parse chunks.flatten = parse chunks.dropLast.flatten := by
  obtain ⟨handled, pushed, hrun, hchunks⟩ := h.handled
  have hlimit := h.fits chunk (by rw [hread]; rfl)
  rw [hread, show (Op.completed (some chunk)).waiting.toList = [chunk] from rfl] at hchunks
  have hbefore := framing_eq_parse hrun
  have hafter := framing_eq_parse (hrun.snoc ⟨hlimit, rfl⟩)
  rw [← hchunks, List.map_append, hbefore] at hafter
  rw [hchunks, List.dropLast_concat, ← hchunks]
  have hinj : Function.Injective fun f : Frame => (id, some f) := by
    intro f g heq
    simpa using heq
  rw [← (List.map_injective_iff.mpr hinj).eq_iff, ← hafter, List.append_right_eq_self,
    List.map_eq_nil_iff]

/-- What a session may push: nothing; or the `CreatePlayer` of the server, packets of
    the client, and possibly the `RemovePlayer` of the server as the last one. -/
def SessionLog (id : UInt64) (log : List Entry) : Prop :=
  log = [] ∨ ∃ packets, log = created id :: Network.fromClient packets ∨
    log = created id :: Network.fromClient packets ++ [removed id]

/-- However far the events have got, every session has pushed what it may. -/
def SessionLogs (events : List (UInt64 × SessionEvent)) : Prop :=
  ∀ before after, events = before ++ after → ∀ σ, NetworkRun before σ →
    ∀ id, SessionLog id (σ.log id)

/-- When the handler of a read that has succeeded runs after its session was torn down, the bytes
    of the read complete no frame: the bytes that the session has got have the same frames with
    them and without them. -/
def Discreet (events : List (UInt64 × SessionEvent)) : Prop :=
  EachAfter (fun before e => ∀ σ, NetworkRun before σ → e.2 = .readHandler →
    ∀ chunk, σ.LateRead e.1 chunk →
      parse (chunksRead e.1 before).flatten = parse (chunksRead e.1 before).dropLast.flatten) events

theorem phase_of_discreet (hdiscreet : Discreet events) (h : NetworkRun events σ) (id : UInt64) :
    Network.Phase id σ := by
  induction h with
  | nil => exact Network.phase_init id
  | @snoc ls e τ τ' hrun hstep ih =>
    obtain ⟨hdiscreet, hlast⟩ := EachAfter.snoc_iff.mp hdiscreet
    by_cases hid : id = e.1
    · subst hid
      exact Network.phase_step (ih hdiscreet) hstep fun he chunk hlate =>
        (onRead_eq_nil_iff (receiving_run hrun e.1) hlate.2).mpr (hlast τ hrun he chunk hlate)
    · exact (Network.same_step hid hstep).phase (ih hdiscreet)

theorem sessionLog_of_phase {id : UInt64} (h : Network.Phase id σ) : SessionLog id (σ.log id) := by
  cases h with
  | connecting _ _ silent | refused _ _ silent => exact .inl silent.log
  | added _ h =>
    cases h with
    | connected packets _ _ log => exact .inr ⟨packets, .inl log⟩
    | removed packets _ _ log => exact .inr ⟨packets, .inr log⟩

/-- Nothing of the client may follow the removal. -/
theorem not_sessionLog_append {id : UInt64} {packets late : List ServerPacket} (h : late ≠ []) :
    ¬ SessionLog id (created id :: Network.fromClient packets ++ [removed id] ++
      Network.fromClient late) := by
  have hserver : ∀ packets : List ServerPacket, removed id ∉ Network.fromClient packets := by
    simp [Network.fromClient, removed]
  rintro (hnil | ⟨packets', heq | heq⟩)
  · simp at hnil
  · have hmem : removed id ∈ created id :: Network.fromClient packets' := heq ▸ by simp
    exact hserver packets' ((List.mem_cons.mp hmem).resolve_left (created_ne_removed id id).symm)
  · obtain ⟨init, p, rfl⟩ := (List.eq_nil_or_concat late).resolve_left h
    -- the last packet is the client's on one side, the server's on the other
    have hconcat : Network.fromClient (init.concat p) =
        Network.fromClient init ++ [(.client, p)] := by
      simp [Network.fromClient]
    rw [hconcat, ← List.append_assoc] at heq
    have hlast := (List.append_inj' heq rfl).2
    simp [removed] at hlast

/-- In every run, the sessions push what they may exactly if the run is discreet. -/
theorem sessionLogs_iff (events : List (UInt64 × SessionEvent)) :
    SessionLogs events ↔ Discreet events := by
  constructor
  · intro hlogs
    induction events using List.reverseRecOn with
    | nil => exact EachAfter.nil
    | append_singleton ls e ih =>
      have hdiscreet : Discreet ls := by
        apply ih
        rintro before after rfl
        exact hlogs before (after ++ [e]) (by simp)
      refine EachAfter.snoc_iff.mpr ⟨hdiscreet, ?_⟩
      obtain ⟨id, e⟩ := e
      rintro σ hrun rfl chunk ⟨hstate, hread⟩
      rw [← onRead_eq_nil_iff (receiving_run hrun id) hread]
      by_contra hlate
      have hstep : σ.step (id, .readHandler) = some (σ.onRead id (some chunk)) :=
        Network.step_readHandler_eq_some.mpr ⟨_, hread, rfl⟩
      obtain ⟨-, hadded⟩ := (phase_of_discreet hdiscreet hrun id).of_active (.inl (by simp [hread]))
      cases hadded with
      | connected _ state _ _ => simp [state] at hstate
      | removed packets _ _ log =>
        have hrun' : NetworkRun (ls ++ [(id, .readHandler)]) (σ.onRead id (some chunk)) :=
          hrun.snoc hstep
        have hlog := hlogs (ls ++ [(id, .readHandler)]) [] (by simp) _ hrun' id
        rw [Network.onRead_log, log] at hlog
        exact not_sessionLog_append hlate hlog
  · rintro hdiscreet before after rfl σ hrun id
    exact sessionLog_of_phase (phase_of_discreet (EachAfter.append_iff.mp hdiscreet).1 hrun id)

/-- A session is accepted; a read of the six bytes of a `MoveLeft` packet completes, a
    write fails, and the write handler runs before the read handler. -/
def lateReadEvents : List (UInt64 × SessionEvent) :=
  [(0, .acceptDone true), (0, .acceptHandler), (0, .startWrite),
    (0, .readDone (some [0x00, 0x12, 0, 0, 0, 0])), (0, .writeDone false), (0, .writeHandler),
    (0, .readHandler)]

/-- The packet of the client follows the removal of its session. -/
theorem read_handler_after_removal : ¬ ∀ events, SessionLogs events := by
  intro hclaim
  have heval : (lateReadEvents.foldlM Network.step {}).map (fun σ => σ.log 0) =
      some (created 0 :: Network.fromClient [] ++ [removed 0] ++
        Network.fromClient [{
          packet := { head := .ofData [0x00, 0x12, 0, 0, 0, 0], body := some [] }, id := 0 }]) := by
    decide +kernel
  obtain ⟨σ, hrun, hlog⟩ := Option.map_eq_some_iff.mp heval
  have hlegal := hclaim lateReadEvents lateReadEvents [] (by simp) σ (run_iff_foldlM.mpr hrun) 0
  rw [hlog] at hlegal
  exact not_sessionLog_append (by simp) hlegal

end EndlessPeak
