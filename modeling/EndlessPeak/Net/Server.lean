import EndlessPeak.Game.Map

/-!
# `Server`: the session map and the sender

Model of `net/server/server.cpp`, lines 86–146. `Sender` reads the session map
with `operator[]`, which inserts a null pointer for an unknown key, and calls
through the pointers without a check; `sender` returns `none` where the program
dereferences a null pointer. Logging is left out.

* `sender_eq_some`: `Sender` calls exactly the sessions the packet is addressed to.
* `sender_eq_none`: it fails for a packet to one session that is not there.
-/

namespace EndlessPeak

open Lib

/-! ## State -/

/-- `class Server`. A value of the map is a `std::shared_ptr<Session>`; the session
    it points to is named by its `GetID()`. `loops` counts the loops over
    `sessions_`, and `pushed` lists the calls of `PushToSend`: the session and the
    buffer. -/
structure Server where
  sessions : AList fun _ : UInt64 => Option UInt64 := ∅
  loops : ℕ := 0
  pushed : List (UInt64 × List UInt8) := []

namespace Server

/-- `AddSession` for the session with this id: the server, and what it pushes to the
    inbound queue. -/
def addSession (s : Server) (id : UInt64) : Server × List ServerPacket :=
  ({ s with sessions := s.sessions.insert id (some id) }, [.ofOpcode .createPlayer id])

/-- `CloseSession`. -/
def closeSession (s : Server) (id : UInt64) : Server × List ServerPacket :=
  if id ∈ s.sessions then
    ({ s with sessions := s.sessions.erase id }, [.ofOpcode .removePlayer id])
  else (s, [])

/-- `sessions_[id]`: the server after the access; an unknown id gets a null entry. -/
def touch (s : Server) (id : UInt64) : Server :=
  match s.sessions.lookup id with
  | some _ => s
  | none => { s with sessions := s.sessions.insert id none }

/-- `session->PushToSend(buf)`. -/
def pushToSend (buf : List UInt8) (s : Server) (session : Option UInt64) : Option Server :=
  session.map fun session => { s with pushed := s.pushed ++ [(session, buf)] }

/-- One round of `Sender`, on the packet it has popped. -/
def sender (platform : Platform) (s : Server) (packet : ServerPacket) : Option Server :=
  let buf := packet.getNetPacket.makeBuffer
  match packet.type with
  | .rpc =>
    let s := s.touch packet.id
    s.pushToSend buf (s.sessions.lookup packet.id).join
  | .broadcast =>
    (platform.iterate s.loops s.sessions.entries).foldlM (fun s elem => s.pushToSend buf elem.2)
      { s with loops := s.loops + 1 }
  | .rpcOthers =>
    (platform.iterate s.loops s.sessions.entries).foldlM
      (fun s elem => if elem.1 ≠ packet.id then s.pushToSend buf elem.2 else some s)
      { s with loops := s.loops + 1 }

/-! ## What `Sender` does -/

variable {platform : Platform} {s s' : Server} {packet : ServerPacket} {buf : List UInt8}
  {id : UInt64}

/-- Every pointer in the map points to the session whose id is the key. -/
def Sound (s : Server) : Prop := ∀ id v, s.sessions.lookup id = some v → v = some id

theorem sound_addSession (h : s.Sound) (id : UInt64) : (s.addSession id).1.Sound := by
  intro j v hv
  by_cases hj : j = id
  · subst hj
    simpa [addSession, eq_comm] using hv
  · simp only [addSession, AList.lookup_insert_ne hj] at hv
    exact h j v hv

theorem sound_closeSession (h : s.Sound) (id : UInt64) : (s.closeSession id).1.Sound := by
  intro j v hv
  unfold closeSession at hv
  split_ifs at hv
  · by_cases hj : j = id
    · subst hj
      simp at hv
    · simp only [AList.lookup_erase_ne hj] at hv
      exact h j v hv
  · exact h j v hv

theorem foldlM_pushToSend (select : UInt64 → Prop) [DecidablePred select]
    (items : List (Sigma fun _ : UInt64 => Option UInt64))
    (h : ∀ item ∈ items, item.2 = some item.1) (s : Server) :
    items.foldlM (fun s elem => if select elem.1 then s.pushToSend buf elem.2 else some s) s =
      some { s with pushed :=
        s.pushed ++ (items.keys.filter (fun id => select id)).map fun id => (id, buf) } := by
  induction items generalizing s with
  | nil => simp
  | cons item items ih =>
    have hitem := h item List.mem_cons_self
    have htail := fun other hother => h other (List.mem_cons_of_mem item hother)
    by_cases hsel : select item.1
    · rw [List.foldlM_cons, if_pos hsel, hitem, pushToSend, Option.map_some, Option.bind_eq_bind,
        Option.bind_some, ih htail]
      simp [hsel]
    · simp [hsel, ih htail]

/-- The sessions in `ids` were called once each with `buf`, and nothing else changed
    in the map. -/
structure Delivered (buf : List UInt8) (ids : List UInt64) (s s' : Server) : Prop where
  sessions : s'.sessions = s.sessions
  pushed : s'.pushed = s.pushed ++ ids.map fun id => (id, buf)
  nodup : ids.Nodup

/-- The buffers pushed to the session `id`, in order. -/
def received (s : Server) (id : UInt64) : List (List UInt8) :=
  (s.pushed.filter fun call => call.1 = id).map Prod.snd

/-- Each session that was called has one buffer more. -/
theorem Delivered.received {ids : List UInt64} (h : Delivered buf ids s s') (id : UInt64) :
    s'.received id = s.received id ++ if id ∈ ids then [buf] else [] := by
  have hself : ids.filter (fun j => j = id) = if id ∈ ids then [id] else [] := by
    rw [List.filter_eq, h.nodup.count]
    split_ifs <;> rfl
  rw [Server.received, h.pushed, List.filter_append, List.map_append, List.filter_map, List.map_map]
  simp only [Function.comp_def]
  rw [hself]
  split_ifs <;> rfl

theorem delivered_loop (platform : Platform) (hsound : s.Sound) (select : UInt64 → Prop)
    [DecidablePred select] :
    ∃ s', (platform.iterate s.loops s.sessions.entries).foldlM
        (fun s elem => if select elem.1 then s.pushToSend buf elem.2 else some s)
        { s with loops := s.loops + 1 } = some s' ∧
      ∃ ids, Delivered buf ids s s' ∧ ∀ id, id ∈ ids ↔ id ∈ s.sessions ∧ select id := by
  refine ⟨_, foldlM_pushToSend select _ ?_ _, _, ⟨rfl, rfl, ?_⟩, ?_⟩
  · intro item hitem
    exact hsound _ _ (Platform.mem_iterate.mp hitem)
  · exact (Platform.nodupKeys_iterate s.sessions s.loops).filter _
  · intro id
    rw [List.mem_filter, Platform.mem_keys_iterate, ← Option.isSome_iff_exists,
      AList.lookup_isSome, decide_eq_true_iff]

/-- Unless the packet is for one session that is not there, every session it is
    addressed to is called once, and no other. -/
theorem sender_eq_some (platform : Platform) (hsound : s.Sound)
    (hrpc : packet.type = .rpc → packet.id ∈ s.sessions) :
    ∃ s', s.sender platform packet = some s' ∧
      ∃ ids, Delivered packet.packet.makeBuffer ids s s' ∧
        ∀ id, id ∈ ids ↔ id ∈ s.sessions ∧ packet.AddressedTo id := by
  simp only [sender, ServerPacket.getNetPacket_eq, ServerPacket.AddressedTo]
  cases htype : packet.type with
  | broadcast => simpa using delivered_loop platform hsound fun _ => True
  | rpcOthers => exact delivered_loop platform hsound fun id => id ≠ packet.id
  | rpc =>
    obtain ⟨v, hv⟩ := Option.isSome_iff_exists.mp (AList.lookup_isSome.mpr (hrpc htype))
    obtain rfl := hsound _ _ hv
    have htouch : s.touch packet.id = s := by simp [touch, hv]
    simp only [htouch, hv, Option.join_some, pushToSend, Option.map_some]
    refine ⟨_, rfl, [packet.id], ⟨rfl, rfl, by simp⟩, ?_⟩
    intro id
    simp only [List.mem_singleton]
    exact ⟨fun h => ⟨h ▸ hrpc htype, h⟩, fun h => h.2⟩

theorem sender_eq_none (htype : packet.type = .rpc) (h : packet.id ∉ s.sessions) :
    s.sender platform packet = none := by
  have hnone : s.sessions.lookup packet.id = none := AList.lookup_eq_none.mpr h
  simp [sender, htype, touch, hnone, pushToSend]

/-- What a round of `Sender` that ends has done. -/
theorem sender_delivers (hsound : s.Sound) (h : s.sender platform packet = some s') :
    (packet.type = .rpc → packet.id ∈ s.sessions) ∧
      ∃ ids, Delivered packet.packet.makeBuffer ids s s' ∧
        ∀ id, id ∈ ids ↔ id ∈ s.sessions ∧ packet.AddressedTo id := by
  have hrpc : packet.type = .rpc → packet.id ∈ s.sessions := by
    intro htype
    by_contra hcon
    simp [sender_eq_none htype hcon] at h
  obtain ⟨t, ht, hdelivered⟩ := sender_eq_some platform hsound hrpc
  obtain rfl := Option.some_inj.mp (h.symm.trans ht)
  exact ⟨hrpc, hdelivered⟩

theorem received_sender (hsound : s.Sound) (h : s.sender platform packet = some s')
    (id : UInt64) : s'.received id = s.received id ++
      if id ∈ s.sessions ∧ packet.AddressedTo id then [packet.packet.makeBuffer] else [] := by
  obtain ⟨-, ids, hdelivered, hids⟩ := sender_delivers hsound h
  rw [hdelivered.received]
  simp only [hids]

theorem sender_sessions (hsound : s.Sound) (h : s.sender platform packet = some s') :
    s'.sessions = s.sessions := by
  obtain ⟨-, ids, hdelivered, -⟩ := sender_delivers hsound h
  exact hdelivered.sessions

theorem sound_sender (hsound : s.Sound) (h : s.sender platform packet = some s') : s'.Sound := by
  intro id v hv
  rw [sender_sessions hsound h] at hv
  exact hsound id v hv

end Server

end EndlessPeak
