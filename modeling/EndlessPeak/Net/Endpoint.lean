import EndlessPeak.Net.SendQueue
import EndlessPeak.Net.System

/-!
# A session and its threads, step by step

Model of `Session` (`net/session/session.cpp`) in which every operation on the state,
the flag, the queues and the session map is a step of its own, and every operation of
the socket can fail. The completion handlers of one session run one at a time; any
number of threads call `PushToSend` in between, and between the steps of a handler.
The send side is that of `SendSide`: its thread `0` runs the handlers, the others are
the threads in `PushToSend`.

A write that fails leaves the flag set, and so does a `TryPop` that finds nothing. Then
nobody is left to clear it (`SendSide.Lost`), and no write is started any more.

* `serial_step`: what one step does to the buffers on their way.
* `writes_serial`: at most one write is outstanding, and the buffers are written in the
  order in which they were pushed.
-/

namespace EndlessPeak

open Lib

/-! ## The model -/

/-- Where the completion handler of a session is, outside `Send`. -/
inductive Place where
  /-- No handler is running, or it is in `Send`. -/
  | idle
  /-- Before `SetConnected()`. -/
  | setConnected
  /-- Before `SetDisconnecting()`. -/
  | setDisconnecting
  /-- `ProcessState`, before `GetState()`. -/
  | getState
  /-- `AddSession`, before the session is stored in `sessions_`. -/
  | insertSession
  /-- `AddSession`, before the push. -/
  | pushCreate
  /-- Before the packets that a read has completed are pushed. -/
  | pushPackets (packets : List ServerPacket)
  /-- Before `async_read_some`. -/
  | readNext
  /-- Before `socket_->close()`. -/
  | close
  /-- `CloseSession`, before the session is looked up in `sessions_` and erased. -/
  | eraseSession
  /-- `CloseSession`, before the push. -/
  | pushRemove
  /-- Before `SetDisconnected()`. -/
  | setDisconnected
  deriving DecidableEq

/-- `class Session`. `accept` is the result of the accept, once it has completed; `reads`
    counts the outstanding reads. The rest is recorded for the statements: whether
    `AddSession` has stored the session, how many operations have failed, whether
    `Disconnected` has ever been stored, for each thread whether its last `Send` found
    that so, whether such a `Send` has started a write, and the buffers pushed. -/
structure Endpoint where
  send : SendSide := { state := .connecting }
  handler : Place := .idle
  accept : Option Bool := none
  reader : Reader := {}
  reads : ℕ := 0
  added : Bool := false
  errors : ℕ := 0
  everDisconnected : Bool := false
  late : ℕ → Bool := fun _ => false
  lateWrite : Bool := false
  pushed : List Buffer := []

/-- What can happen next to a session. -/
inductive EndpointEvent where
  /-- The accept completes, and its handler starts. -/
  | accepted (success : Bool)
  /-- The outstanding read completes, with these bytes or with an error, and its handler
      starts. -/
  | readDone (result : Option (List UInt8))
  /-- The outstanding write completes, and its handler starts. -/
  | written (success : Bool)
  /-- The handler executes its next operation outside `Send`. -/
  | handle
  /-- The thread `t` calls `PushToSend`: it pushes the buffer and enters `Send`. -/
  | push (t : ℕ) (buf : Buffer)
  /-- The handler (`0`) or the thread `t` (`t + 1`) executes its next operation in `Send`. -/
  | send (u : ℕ)

/-- An operation completes with an error. -/
def EndpointEvent.failed : EndpointEvent → Bool
  | .accepted false | .readDone none | .written false => true
  | _ => false

/-- The state of a session, whether `sessions_` holds it, and what is pushed to the
    network in queue. -/
abbrev EndpointResult := Endpoint × Bool × List Entry

namespace Endpoint

/-- No handler of the session is running. -/
def Free (e : Endpoint) : Prop := e.handler = .idle ∧ e.send.pc 0 = .idle

instance (e : Endpoint) : Decidable e.Free := inferInstanceAs (Decidable (_ ∧ _))

/-- `state_.store`; the handler goes on at `place`. -/
def store (e : Endpoint) (state : SessionState) (place : Place) : Endpoint :=
  { e with send := { e.send with state }, handler := place }

/-- The branch of a handler for an error, which starts with `SetDisconnecting()`. -/
def fail (e : Endpoint) : Endpoint := { e with handler := .setDisconnecting }

/-- The next operation of the handler of the session `id`; `live` tells whether
    `sessions_` holds it. -/
def handle (id : UInt64) (live : Bool) (e : Endpoint) : Option EndpointResult :=
  match e.handler with
  | .idle => none
  | .setConnected => some (e.store .connected .getState, live, [])
  | .setDisconnecting => some (e.store .disconnecting .getState, live, [])
  | .getState =>
    match e.send.state with
    | .connected => some ({ e with handler := .insertSession }, live, [])
    | .disconnecting => some ({ e with handler := .close }, live, [])
    | _ => some ({ e with handler := .idle }, live, [])
  | .insertSession => some ({ e with handler := .pushCreate, added := true }, true, [])
  | .pushCreate => some ({ e with handler := .readNext }, live, [created id])
  | .pushPackets [] => some ({ e with handler := .readNext }, live, [])
  | .pushPackets (packet :: packets) =>
    some ({ e with handler := .pushPackets packets }, live, [(.client, packet)])
  | .readNext => some ({ e with handler := .idle, reads := e.reads + 1 }, live, [])
  | .close => some ({ e with handler := .eraseSession }, live, [])
  | .eraseSession =>
    if live then some ({ e with handler := .pushRemove }, false, [])
    else some ({ e with handler := .setDisconnected }, false, [])
  | .pushRemove => some ({ e with handler := .setDisconnected }, live, [removed id])
  | .setDisconnected =>
    some ({ e.store .disconnected .idle with everDisconnected := true }, live, [])

/-- The thread `u` has executed an operation of `Send`, and the send side is `send` now. -/
def sent (e : Endpoint) (u : ℕ) (send : SendSide) : Endpoint :=
  match e.send.pc u with
  | .isConnected => { e with send, late := Function.update e.late u e.everDisconnected }
  | .asyncWrite _ => { e with send, lateWrite := e.lateWrite || e.late u }
  | _ => { e with send }

/-- One step of the session `id`. A completion handler starts only if no other one is
    running; a read gets at most the bytes it asked for. -/
def step (id : UInt64) (live : Bool) (e : Endpoint) : EndpointEvent → Option EndpointResult
  | .accepted success =>
    if e.accept = none ∧ e.Free then
      let e := { e with accept := some success }
      some (if success then { e with handler := .setConnected }
        else { e with errors := e.errors + 1 }.fail, live, [])
    else none
  | .readDone none =>
    if 0 < e.reads ∧ e.Free then
      some ({ e with reads := e.reads - 1, errors := e.errors + 1 }.fail, live, [])
    else none
  | .readDone (some chunk) =>
    if 0 < e.reads ∧ e.Free ∧ chunk.length ≤ e.reader.limit then
      let (reader, packets) := e.reader.onRead id chunk
      some ({ e with reads := e.reads - 1, reader, handler := .pushPackets packets }, live, [])
    else none
  | .written true =>
    if e.handler = .idle then
      (e.send.step (.complete 0)).map fun send => ({ e with send }, live, [])
    else none
  | .written false =>
    if 0 < e.send.outstanding ∧ e.Free then
      let send := { e.send with outstanding := e.send.outstanding - 1 }
      some ({ e with send, errors := e.errors + 1 }.fail, live, [])
    else none
  | .handle => e.handle id live
  | .push t buf => (e.send.step (.push (t + 1) buf)).map fun send =>
      ({ e with send, pushed := e.pushed ++ [buf] }, live, [])
  | .send u => (e.send.step (.step u)).map fun send => (e.sent u send, live, [])

end Endpoint

/-- The sessions by their ids, `sessions_`, and what has been pushed to the network in
    queue. -/
structure Hub where
  endpoint : UInt64 → Endpoint := fun _ => {}
  sessions : UInt64 → Bool := fun _ => false
  inQueue : List Entry := []

/-- One step of the session `id`. -/
def Hub.step (σ : Hub) : UInt64 × EndpointEvent → Option Hub
  | (id, event) => ((σ.endpoint id).step id (σ.sessions id) event).map fun (e, live, packets) =>
    { endpoint := Function.update σ.endpoint id e
      sessions := Function.update σ.sessions id live
      inQueue := σ.inQueue ++ packets }

/-- The events can happen in this order from the start of the server, and lead to the
    last argument. -/
def HubRun : List (UInt64 × EndpointEvent) → Hub → Prop := Run (stepRel Hub.step) {}

/-- How many operations of the session `id` complete with an error. -/
def failures (id : UInt64) (events : List (UInt64 × EndpointEvent)) : ℕ :=
  events.countP fun e => e.1 = id ∧ e.2.failed

/-! ## The send side -/

namespace SendSide

variable {σ σ' : SendSide} {e : SendEvent} {owner : Owner} {pushed : List Buffer}

/-- The flag is set, and nobody has the duty to clear it. -/
structure Lost (σ : SendSide) : Prop where
  sending : σ.sending = true
  holds : ∀ t, ¬ (σ.pc t).Holds
  outstanding : σ.outstanding = 0

/-- What has been pushed is in order on its way, and somebody is responsible for it, or
    will stay where it is. -/
inductive Serial (σ : SendSide) (pushed : List Buffer) : Prop
  | owned (owner : Owner) (h : Owned σ owner) (hbuffers : σ.buffers owner = pushed)
  | lost (h : Lost σ) (hbuffers : σ.written ++ σ.queue = pushed)

theorem lost_step (h : Lost σ) (hstep : σ.step e = some σ') :
    Lost σ' ∧ σ'.written ++ σ'.queue = σ.written ++ σ.queue ++ e.pushed := by
  have hmove : ∀ t pc, ¬ pc.Holds → ∀ u, ¬ ((σ.goto t pc).pc u).Holds := by
    intro t pc hpc u
    rw [goto_pc]
    split_ifs
    · exact hpc
    · exact h.holds u
  cases step_cases hstep with
  | push t buf hpc =>
    exact ⟨⟨h.sending, hmove t _ id, h.outstanding⟩, (List.append_assoc _ _ _).symm⟩
  | complete t hpc hpos => simp [h.outstanding] at hpos
  | look t pc hpc hnext =>
    exact ⟨⟨h.sending, hmove t pc (not_holds_of_look hnext), h.outstanding⟩,
      (List.append_nil _).symm⟩
  | busy t hpc hflag =>
    exact ⟨⟨h.sending, hmove t _ id, h.outstanding⟩, (List.append_nil _).symm⟩
  | take t hpc hflag => simp [h.sending] at hflag
  | popNothing t hpc | pop t buf rest hpc | write t buf hpc | clear t hpc =>
    exact absurd (by simp [hpc, Pc.Holds]) (h.holds t)

/-- `TryPop` finds nothing: the thread that has set the flag gives up. -/
theorem lost_popNothing {t : ℕ} (h : Owned σ owner) (hpc : σ.pc t = .tryPop)
    (hqueue : σ.queue = []) (hstep : σ.step (.step t) = some σ') :
    Lost σ' ∧ σ'.written ++ σ'.queue = σ.buffers owner := by
  obtain rfl := (h.holds t).mp (by simp [hpc, Pc.Holds])
  simp only [step, exec, hpc, hqueue, Option.some_inj] at hstep
  subst hstep
  refine ⟨⟨h.sending.mpr (by simp), ?_, by simpa using h.outstanding⟩, ?_⟩
  · intro u
    rw [goto_pc]
    split_ifs with hu
    · exact id
    · rw [h.holds u]
      simpa using Ne.symm hu
  · simp [buffers, Owner.hand, Pc.hand, hpc]

theorem lost_of_failed (h : Owned σ owner) (hpos : 0 < σ.outstanding) :
    Lost { σ with outstanding := σ.outstanding - 1 } ∧
      σ.written ++ σ.queue = σ.buffers owner := by
  obtain rfl := eq_write_of_pos h hpos
  refine ⟨⟨h.sending.mpr (by simp), ?_, ?_⟩, ?_⟩
  · intro t
    show ¬ (σ.pc t).Holds
    rw [h.holds t]
    simp
  · show σ.outstanding - 1 = 0
    rw [h.outstanding, if_pos rfl]
  · simp [buffers, Owner.hand]

/-- What one step does to the buffers on their way. -/
theorem serial_step (h : Serial σ pushed) (hstep : σ.step e = some σ') :
    Serial σ' (pushed ++ e.pushed) := by
  cases h with
  | owned owner h hbuffers =>
    subst hbuffers
    by_cases hpop : ∀ t, e = .step t → σ.pc t = .tryPop → σ.queue ≠ []
    · obtain ⟨owner', h', hbuffers'⟩ := owned_step h hstep hpop
      exact .owned owner' h' hbuffers'
    · push Not at hpop
      obtain ⟨t, rfl, hpc, hqueue⟩ := hpop
      obtain ⟨hlost, hbuffers'⟩ := lost_popNothing h hpc hqueue hstep
      exact .lost hlost (by simpa [SendEvent.pushed] using hbuffers')
  | lost h hbuffers =>
    subst hbuffers
    obtain ⟨hlost, hbuffers'⟩ := lost_step h hstep
    exact .lost hlost hbuffers'

theorem serial_failed (h : Serial σ pushed) (hpos : 0 < σ.outstanding) :
    Serial { σ with outstanding := σ.outstanding - 1 } pushed := by
  cases h with
  | owned owner h hbuffers =>
    obtain ⟨hlost, hbuffers'⟩ := lost_of_failed h hpos
    exact .lost hlost (hbuffers'.trans hbuffers)
  | lost h hbuffers => simp [h.outstanding] at hpos

/-- The state of the session has no part in this. -/
theorem serial_state (state : SessionState) (h : Serial σ pushed) :
    Serial { σ with state } pushed := by
  cases h with
  | owned owner h hbuffers => exact .owned owner ⟨h.sending, h.holds, h.outstanding⟩ hbuffers
  | lost h hbuffers => exact .lost ⟨h.sending, h.holds, h.outstanding⟩ hbuffers

end SendSide

/-! ## What a step does -/

namespace Endpoint

variable {e e' : Endpoint} {id : UInt64} {live live' : Bool} {out : List Entry}
  {event : EndpointEvent} {u : ℕ} {send : SendSide}

/-- The steps of a session, one constructor for each event and result. -/
inductive Moves (id : UInt64) (live : Bool) (e : Endpoint) :
    EndpointEvent → Endpoint → Bool → List Entry → Prop
  | accepted (haccept : e.accept = none) (hfree : e.Free) : Moves id live e (.accepted true)
      { e with accept := some true, handler := .setConnected } live []
  | refused (haccept : e.accept = none) (hfree : e.Free) : Moves id live e (.accepted false)
      { e with accept := some false, errors := e.errors + 1 }.fail live []
  | readFailed (hpos : 0 < e.reads) (hfree : e.Free) : Moves id live e (.readDone none)
      { e with reads := e.reads - 1, errors := e.errors + 1 }.fail live []
  | read (chunk : List UInt8) (hpos : 0 < e.reads) (hfree : e.Free) :
      Moves id live e (.readDone (some chunk))
        { e with
          reads := e.reads - 1
          reader := (e.reader.onRead id chunk).1
          handler := .pushPackets (e.reader.onRead id chunk).2 } live []
  | written (send : SendSide) (hidle : e.handler = .idle)
      (hsend : e.send.step (.complete 0) = some send) :
      Moves id live e (.written true) { e with send } live []
  | writeFailed (hpos : 0 < e.send.outstanding) (hfree : e.Free) :
      Moves id live e (.written false)
        { e with
          send := { e.send with outstanding := e.send.outstanding - 1 }
          errors := e.errors + 1 }.fail live []
  | handle {e' : Endpoint} {live' : Bool} {out : List Entry}
      (h : e.handle id live = some (e', live', out)) : Moves id live e .handle e' live' out
  | push (t : ℕ) (buf : Buffer) (send : SendSide)
      (hsend : e.send.step (.push (t + 1) buf) = some send) :
      Moves id live e (.push t buf) { e with send, pushed := e.pushed ++ [buf] } live []
  | send (u : ℕ) (send : SendSide) (hsend : e.send.step (.step u) = some send) :
      Moves id live e (.send u) (e.sent u send) live []

theorem step_cases (h : e.step id live event = some (e', live', out)) :
    Moves id live e event e' live' out := by
  cases event with
  | accepted success =>
    simp only [step, Option.ite_none_right_eq_some] at h
    obtain ⟨⟨haccept, hfree⟩, h⟩ := h
    cases success with
    | true =>
      cases h
      exact .accepted haccept hfree
    | false =>
      cases h
      exact .refused haccept hfree
  | readDone result =>
    cases result with
    | none =>
      simp only [step, Option.ite_none_right_eq_some] at h
      obtain ⟨⟨hpos, hfree⟩, h⟩ := h
      cases h
      exact .readFailed hpos hfree
    | some chunk =>
      simp only [step, Option.ite_none_right_eq_some] at h
      obtain ⟨⟨hpos, hfree, -⟩, h⟩ := h
      cases h
      exact .read chunk hpos hfree
  | written success =>
    cases success with
    | true =>
      simp only [step, Option.ite_none_right_eq_some, Option.map_eq_some_iff] at h
      obtain ⟨hidle, send, hsend, h⟩ := h
      cases h
      exact .written send hidle hsend
    | false =>
      simp only [step, Option.ite_none_right_eq_some] at h
      obtain ⟨⟨hpos, hfree⟩, h⟩ := h
      cases h
      exact .writeFailed hpos hfree
  | handle => exact .handle h
  | push t buf =>
    simp only [step, Option.map_eq_some_iff] at h
    obtain ⟨send, hsend, h⟩ := h
    cases h
    exact .push t buf send hsend
  | send u =>
    simp only [step, Option.map_eq_some_iff] at h
    obtain ⟨send, hsend, h⟩ := h
    cases h
    exact .send u send hsend

/-- Outside `Send` a handler only stores the state of the session. -/
theorem handle_send (h : e.handle id live = some (e', live', out)) :
    (∃ state, e'.send = { e.send with state }) ∧ e'.pushed = e.pushed := by
  unfold handle store at h
  split at h
  case h_1 => simp at h
  case h_4 => split at h <;> cases h <;> exact ⟨⟨_, rfl⟩, rfl⟩
  case h_11 => split_ifs at h <;> cases h <;> exact ⟨⟨_, rfl⟩, rfl⟩
  all_goals
    cases h
    exact ⟨⟨_, rfl⟩, rfl⟩

/-- A handler pushes nothing, a packet of the server about its session, or a packet of
    the client. -/
theorem handle_out (h : e.handle id live = some (e', live', out)) :
    out = [] ∨ out = [created id] ∨ out = [removed id] ∨ ∃ packet, out = [(.client, packet)] := by
  unfold handle at h
  split at h
  case h_1 => simp at h
  case h_4 => split at h <;> cases h <;> exact .inl rfl
  case h_11 => split_ifs at h <;> cases h <;> exact .inl rfl
  all_goals
    cases h
    first | exact .inl rfl | simp

@[simp] theorem sent_send : (e.sent u send).send = send := by
  unfold sent
  split <;> rfl

@[simp] theorem sent_pushed : (e.sent u send).pushed = e.pushed := by
  unfold sent
  split <;> rfl

theorem sent_keeps : (e.sent u send).accept = e.accept ∧ (e.sent u send).errors = e.errors := by
  unfold sent
  split <;> exact ⟨rfl, rfl⟩

theorem handle_keeps (h : e.handle id live = some (e', live', out)) :
    e'.accept = e.accept ∧ e'.errors = e.errors := by
  unfold handle at h
  split at h
  case h_1 => simp at h
  case h_4 => split at h <;> cases h <;> exact ⟨rfl, rfl⟩
  case h_11 => split_ifs at h <;> cases h <;> exact ⟨rfl, rfl⟩
  all_goals
    cases h
    exact ⟨rfl, rfl⟩

theorem errors_step (h : e.step id live event = some (e', live', out)) :
    e'.errors = e.errors + if event.failed then 1 else 0 := by
  cases step_cases h with
  | accepted | refused | readFailed | read | written | writeFailed | push => rfl
  | handle hhandle => exact (handle_keeps hhandle).2
  | send => exact sent_keeps.2

/-- The steps outside `Send` leave the buffers on their way as they are. -/
theorem serial_endpoint (h : e.send.Serial e.pushed)
    (hstep : e.step id live event = some (e', live', out)) : e'.send.Serial e'.pushed := by
  cases step_cases hstep with
  | accepted | refused | readFailed | read => exact h
  | written send hidle hsend =>
    have hserial := SendSide.serial_step h hsend
    simpa [SendEvent.pushed] using hserial
  | writeFailed hpos hfree => exact SendSide.serial_failed h hpos
  | handle hhandle =>
    obtain ⟨⟨state, hsend⟩, hpushed⟩ := handle_send hhandle
    rw [hsend, hpushed]
    exact SendSide.serial_state state h
  | push t buf send hsend => exact SendSide.serial_step h hsend
  | send u send hsend =>
    have hserial := SendSide.serial_step h hsend
    simpa [SendEvent.pushed] using hserial

end Endpoint

/-! ## Many sessions -/

namespace Hub

variable {σ σ' : Hub} {id j : UInt64} {event : EndpointEvent}

/-- What the server itself has pushed about `id`. -/
def serverLog (σ : Hub) (id : UInt64) : List Entry :=
  σ.inQueue.filter fun e => e.1 = .server ∧ e.2.id = id

/-- The packets of the server about `id`. -/
def byServer (id : UInt64) (out : List Entry) : List Entry :=
  out.filter fun e => e.1 = .server ∧ e.2.id = id

@[simp] theorem byServer_nil (id : UInt64) : byServer id [] = [] := rfl

theorem step_self (h : σ.step (id, event) = some σ') : ∃ out,
    (σ.endpoint id).step id (σ.sessions id) event =
        some (σ'.endpoint id, σ'.sessions id, out) ∧
      σ'.serverLog id = σ.serverLog id ++ byServer id out := by
  simp only [step, Option.map_eq_some_iff] at h
  obtain ⟨⟨e, live, out⟩, hstep, rfl⟩ := h
  refine ⟨out, ?_, ?_⟩
  · simpa using hstep
  · simp [serverLog, byServer]

theorem step_other (h : σ.step (id, event) = some σ') (hj : j ≠ id) :
    σ'.endpoint j = σ.endpoint j ∧ σ'.sessions j = σ.sessions j ∧
      σ'.serverLog j = σ.serverLog j := by
  simp only [step, Option.map_eq_some_iff] at h
  obtain ⟨⟨e, live, out⟩, hstep, rfl⟩ := h
  have hout : byServer j out = [] := by
    have hid : (created id).2.id ≠ j ∧ (removed id).2.id ≠ j := ⟨Ne.symm hj, Ne.symm hj⟩
    cases Endpoint.step_cases hstep with
    | handle hhandle =>
      rcases Endpoint.handle_out hhandle with rfl | rfl | rfl | ⟨packet, rfl⟩
      · rfl
      · simp [byServer, hid.1]
      · simp [byServer, hid.2]
      · simp [byServer]
    | _ => rfl
  refine ⟨by simp [hj], by simp [hj], ?_⟩
  simpa [serverLog, byServer] using hout

end Hub

variable {events : List (UInt64 × EndpointEvent)} {σ : Hub}

theorem hub_serial (h : HubRun events σ) (id : UInt64) :
    (σ.endpoint id).send.Serial (σ.endpoint id).pushed := by
  refine h.invariant (I := fun σ => (σ.endpoint id).send.Serial (σ.endpoint id).pushed) ?_ ?_
  · exact .owned .nobody ⟨by simp, by simp [Pc.Holds], rfl⟩ rfl
  · rintro σ ⟨j, event⟩ σ' hσ hstep
    by_cases hj : id = j
    · subst hj
      obtain ⟨out, hself, -⟩ := Hub.step_self hstep
      exact Endpoint.serial_endpoint hσ hself
    · rw [(Hub.step_other hstep hj).1]
      exact hσ

theorem errors_eq_failures (h : HubRun events σ) (id : UInt64) :
    (σ.endpoint id).errors = failures id events := by
  refine h.invariant_trace (I := fun events σ => (σ.endpoint id).errors = failures id events) rfl ?_
  rintro events σ ⟨j, event⟩ σ' hσ hstep
  rw [failures, List.countP_append, List.countP_singleton, ← failures, ← hσ]
  by_cases hj : id = j
  · subst hj
    obtain ⟨out, hself, -⟩ := Hub.step_self hstep
    simpa using Endpoint.errors_step hself
  · rw [(Hub.step_other hstep hj).1]
    simp [Ne.symm hj]

/-- In every run, whatever the threads in `PushToSend` and the handlers do and whatever
    operations fail: at most one write is outstanding, and the buffers passed to
    `async_write` are a prefix of those pushed. -/
theorem writes_serial (h : HubRun events σ) (id : UInt64) :
    (σ.endpoint id).send.outstanding ≤ 1 ∧
      (σ.endpoint id).send.written <+: (σ.endpoint id).pushed := by
  cases hub_serial h id with
  | owned owner howned hbuffers =>
    refine ⟨?_, owner.hand (σ.endpoint id).send ++ (σ.endpoint id).send.queue, ?_⟩
    · rw [howned.outstanding]
      split_ifs <;> omega
    · rw [← hbuffers, SendSide.buffers, List.append_assoc]
  | lost hlost hbuffers =>
    refine ⟨?_, (σ.endpoint id).send.queue, hbuffers⟩
    rw [hlost.outstanding]
    omega

/-- A session connects and a read is started. -/
def connecting (id : UInt64) : List (UInt64 × EndpointEvent) :=
  (id, .accepted true) :: List.replicate 5 (id, .handle)

/-- Two threads send a buffer each, and the write of the first one fails. -/
def failedWrite (id : UInt64) : List (UInt64 × EndpointEvent) :=
  connecting id ++ [(id, .push 0 [1]), (id, .push 1 [2])] ++ List.replicate 5 (id, .send 1) ++
    List.replicate 3 (id, .send 2) ++ [(id, .written false)]

theorem writes_serial_failedWrite : ∃ σ, HubRun (failedWrite 0) σ ∧
    (σ.endpoint 0).send.outstanding ≤ 1 ∧
      (σ.endpoint 0).send.written <+: (σ.endpoint 0).pushed := by
  have heval : ((failedWrite 0).foldlM Hub.step {}).isSome = true := by decide +kernel
  obtain ⟨σ, hσ⟩ := Option.isSome_iff_exists.mp heval
  have hrun : HubRun (failedWrite 0) σ := run_iff_foldlM.mpr hσ
  exact ⟨σ, hrun, writes_serial hrun 0⟩

end EndlessPeak
