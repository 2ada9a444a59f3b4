import EndlessPeak.Net.ReceiveBuffer

/-!
# Encoding and framing

`NetPacket` is written with `operator<<` and `MakeBuffer`, and read by the framer of a
session. A packet whose header the framer accepts and whose header size is the length
of its body comes back as it was sent, whatever follows it on the stream and however
the bytes arrive. `MakeBuffer` returns no bytes at all for a packet without a body
vector, so such a packet does not come back.

* `NetPacket.WellFramed`: what the encoder has to keep to; `parse_makeBuffer`.
* `exists_delivery`: the read loop can always take the next byte.
* `Recipe.wellFramed_packet`: a packet that has been pushed to is well framed.
* `delivers_iff`: a list of packets comes back exactly if each has been pushed to.
-/

namespace EndlessPeak

open Lib

/-! ## Well-framed packets -/

namespace NetPacket

/-- The framer accepts the header, and the header size is the length of the body. -/
structure WellFramed (p : NetPacket) : Prop where
  has_body : p.body ≠ none
  valid : p.isValidHeader = true
  size : p.getHeadSize.toNat = (p.body.getD []).length

instance (p : NetPacket) : Decidable p.WellFramed :=
  decidable_of_iff (p.body ≠ none ∧ p.isValidHeader = true ∧
      p.getHeadSize.toNat = (p.body.getD []).length)
    ⟨fun ⟨h1, h2, h3⟩ => ⟨h1, h2, h3⟩, fun ⟨h1, h2, h3⟩ => ⟨h1, h2, h3⟩⟩

/-- What a packet says: its opcode, its header size and its body bytes. -/
def content (p : NetPacket) : UInt16 × UInt32 × List UInt8 :=
  (p.getHeadOpcode, p.getHeadSize, p.body.getD [])

/-- The frame that carries what a packet says. -/
def toFrame (p : NetPacket) : Frame := ⟨p.getHeadOpcode, p.getHeadSize, p.body.getD []⟩

theorem parse_makeBuffer {p : NetPacket} (h : p.WellFramed) (rest : List UInt8) :
    parse (p.makeBuffer ++ rest) = p.toFrame :: parse rest := by
  have hsize := h.size
  rw [makeBuffer_eq h.has_body, List.append_assoc, parse_headData, if_pos h.valid,
    if_pos (by simp; omega), hsize, List.take_left, List.drop_left]
  rfl

theorem content_of_frame {p : NetPacket} {f : Frame} (h : p.frame = some f) :
    p.content = (f.opcode, f.size, f.body) := by
  obtain ⟨body, hbody, rfl⟩ := Option.map_eq_some_iff.mp h
  simp [content, hbody]

end NetPacket

/-! ## What the read loop delivers -/

/-- In whatever pieces `bytes` arrive, the read loop pushes packets of the session that
    say what `packets` say, in this order, and no others. -/
def Delivers (id : UInt64) (bytes : List UInt8) (packets : List NetPacket) : Prop :=
  ∀ chunks r pushed, chunks.flatten = bytes → Run (readNext id) ({}, []) chunks (r, pushed) →
    pushed.map (fun p => (p.id, p.packet.content)) = packets.map fun p => (id, p.content)

/-- Between two completions the loop asks for at least one byte. -/
theorem Reader.limit_pos {r : Reader} (h : r.Inv) : 0 < r.limit := by
  have hs := startsRead_of_inv h
  obtain ⟨handler, op⟩ := r
  cases op with
  | head =>
    have hhead : StartsHead handler := hs
    exact hhead.size_pos
  | body =>
    obtain ⟨n, hbody⟩ : ∃ n, StartsBody handler n := hs
    exact hbody.size_pos

/-- The loop takes any bytes, one by one if need be. -/
theorem exists_delivery (id : UInt64) (bytes : List UInt8) :
    ∃ chunks r pushed, chunks.flatten = bytes ∧ Run (readNext id) ({}, []) chunks (r, pushed) := by
  induction bytes using List.reverseRecOn with
  | nil => exact ⟨[], {}, [], rfl, .nil⟩
  | append_singleton bytes b ih =>
    obtain ⟨chunks, r, pushed, hflat, hrun⟩ := ih
    have hpos := Reader.limit_pos (accounts_run hrun).inv
    refine ⟨chunks ++ [[b]], (r.onRead id [b]).1, pushed ++ (r.onRead id [b]).2, ?_, ?_⟩
    · simp [hflat]
    · exact hrun.snoc ⟨hpos, rfl⟩

/-- The loop delivers what the parser finds. -/
theorem delivers_parse (id : UInt64) {bytes : List UInt8} {packets : List NetPacket}
    (h : (parse bytes).map (fun f => (f.opcode, f.size, f.body)) =
      packets.map NetPacket.content) : Delivers id bytes packets := by
  rintro chunks r pushed rfl hrun
  have hframes := (accounts_run hrun).pushed_eq
  have hpushed : pushed.map (fun p => (p.id, p.packet.content)) =
      (parse chunks.flatten).map fun f => (id, f.opcode, f.size, f.body) := by
    apply List.ext_getElem
    · simpa using congrArg List.length hframes
    · intro i h1 h2
      have hi := List.getElem_of_eq hframes (i := i) (by simpa using h1)
      simp only [List.getElem_map, Prod.mk.injEq] at hi ⊢
      exact ⟨hi.1, NetPacket.content_of_frame hi.2⟩
  rw [hpushed]
  have hpair := congrArg (List.map fun c => (id, c)) h
  simpa [List.map_map, Function.comp_def] using hpair

theorem delivers_makeBuffer (id : UInt64) {p : NetPacket} (h : p.WellFramed) :
    Delivers id p.makeBuffer [p] := by
  apply delivers_parse
  have hparse := NetPacket.parse_makeBuffer h []
  have hnil : parse [] = [] := parse_of_length_lt (by simp)
  rw [List.append_nil, hnil] at hparse
  rw [hparse]
  rfl

/-! ## Packets as they are built -/

/-- A value of some `PodType`: its object representation, which is never empty. -/
structure Pod where
  bytes : List UInt8
  ne_nil : bytes ≠ []

instance : PodType Pod := ⟨Pod.bytes⟩

/-- Pushing a value is pushing its object representation. -/
theorem NetPacket.shl_pod {T : Type} [PodType T] (p : NetPacket) (v : T)
    (h : PodType.repr v ≠ []) : p <<< v = p <<< (⟨PodType.repr v, h⟩ : Pod) := rfl

/-- How a packet is started: by the constructor `NetPacket(Opcodes)`, or with
    `SetHeadOpcode` on an empty packet. -/
inductive Start where
  | ofOpcode (opcode : Opcodes)
  | setHeadOpcode (opcode : UInt16)

/-- The packet before the first push. -/
def Start.packet : Start → NetPacket
  | .ofOpcode opcode => .ofOpcode opcode
  | .setHeadOpcode opcode => ({} : NetPacket).setHeadOpcode opcode

/-- The opcode a packet is started with. -/
def Start.opcode : Start → UInt16
  | .ofOpcode opcode => toUInt16 opcode
  | .setHeadOpcode opcode => opcode

/-- How a packet is built: its start and the values pushed to it. -/
structure Recipe where
  start : Start
  values : List Pod
  opcode_lt : start.opcode < 0x0FFF
  fits : (values.flatMap Pod.bytes).length < 128

/-- The packet that is built. -/
def Recipe.packet (r : Recipe) : NetPacket := r.values.foldl (· <<< ·) r.start.packet

theorem Start.packet_getHeadOpcode (s : Start) : s.packet.getHeadOpcode = s.opcode := by
  cases s <;> simp [packet, opcode]

theorem Start.packet_body (s : Start) : s.packet.body = none := by
  cases s <;> rfl

/-- Pushing values keeps the opcode; the body is the values in network order, and the
    header size is its length. -/
theorem foldl_shl (values : List Pod) (p : NetPacket) :
    (values.foldl (· <<< ·) p).getHeadOpcode = p.getHeadOpcode ∧
      (values.foldl (· <<< ·) p).body.getD [] =
        p.body.getD [] ++ values.flatMap (fun v => v.bytes.reverse) ∧
      (values ≠ [] → (values.foldl (· <<< ·) p).body ≠ none ∧
        (values.foldl (· <<< ·) p).getHeadSize =
          UInt32.ofNat ((values.foldl (· <<< ·) p).body.getD []).length) := by
  induction values generalizing p with
  | nil => simp
  | cons v values ih =>
    obtain ⟨hop, hbody, hsize⟩ := ih (p <<< v)
    rw [List.foldl_cons]
    refine ⟨by simpa using hop, ?_, fun _ => ?_⟩
    · rw [hbody]
      simp [PodType.repr]
    · cases values with
      | nil => exact ⟨by simp, NetPacket.shl_getHeadSize p v⟩
      | cons w values => exact hsize (by simp)

namespace Recipe

variable (r : Recipe)

theorem packet_getHeadOpcode : r.packet.getHeadOpcode = r.start.opcode :=
  (foldl_shl r.values r.start.packet).1.trans r.start.packet_getHeadOpcode

theorem packet_body : r.packet.body.getD [] = r.values.flatMap fun v => v.bytes.reverse := by
  have hbody := (foldl_shl r.values r.start.packet).2.1
  rw [r.start.packet_body] at hbody
  exact hbody

theorem length_packet_body : (r.packet.body.getD []).length < 128 := by
  have hlen : (r.values.flatMap fun v => v.bytes.reverse).length =
      (r.values.flatMap Pod.bytes).length := by
    simp [List.length_flatMap]
  rw [packet_body, hlen]
  exact r.fits

theorem wellFramed_packet (h : r.values ≠ []) : r.packet.WellFramed := by
  obtain ⟨hbody, hsize⟩ := (foldl_shl r.values r.start.packet).2.2 h
  have hlen := r.length_packet_body
  have hsize' : r.packet.getHeadSize.toNat = (r.packet.body.getD []).length := by
    rw [packet, hsize, UInt32.toNat_ofNat', ← packet]
    omega
  refine ⟨hbody, ?_, hsize'⟩
  simp only [NetPacket.isValidHeader, Bool.and_eq_true, decide_eq_true_eq]
  refine ⟨?_, ?_⟩
  · rw [packet_getHeadOpcode]
    exact r.opcode_lt
  · rw [UInt32.lt_iff_toNat_lt, hsize']
    exact hlen

/-- A packet that has not been pushed to is sent as no bytes at all. -/
theorem makeBuffer_of_nil (h : r.values = []) : r.packet.makeBuffer = [] := by
  apply NetPacket.makeBuffer_nil
  rw [packet, h]
  exact r.start.packet_body

end Recipe

/-! ## Streams of packets -/

/-- The bytes of the packets, one after the other. -/
def wire (recipes : List Recipe) : List UInt8 := recipes.flatMap fun r => r.packet.makeBuffer

theorem parse_wire (recipes : List Recipe) :
    parse (wire recipes) =
      (recipes.filter fun r => !r.values.isEmpty).map fun r => r.packet.toFrame := by
  induction recipes with
  | nil => exact parse_of_length_lt (by simp [wire])
  | cons r recipes ih =>
    have hcons : wire (r :: recipes) = r.packet.makeBuffer ++ wire recipes := rfl
    by_cases hr : r.values = []
    · rw [hcons, r.makeBuffer_of_nil hr, List.nil_append, ih]
      simp [hr]
    · rw [hcons, NetPacket.parse_makeBuffer (r.wellFramed_packet hr), ih]
      simp [hr]

/-- In whatever pieces the bytes of the packets arrive, the read loop delivers exactly
    these packets if and only if each of them has been pushed to. -/
theorem delivers_iff (id : UInt64) (recipes : List Recipe) :
    Delivers id (wire recipes) (recipes.map Recipe.packet) ↔ ∀ r ∈ recipes, r.values ≠ [] := by
  have hframes : (parse (wire recipes)).map (fun f => (f.opcode, f.size, f.body)) =
      ((recipes.filter fun r => !r.values.isEmpty).map Recipe.packet).map NetPacket.content := by
    rw [parse_wire, List.map_map, List.map_map]
    rfl
  constructor
  · intro hdelivers
    -- the two lists of packets have the same length
    obtain ⟨chunks, r, pushed, hflat, hrun⟩ := exists_delivery id (wire recipes)
    have hfound := delivers_parse id hframes chunks r pushed hflat hrun
    have hall := hdelivers chunks r pushed hflat hrun
    have hlen := congrArg List.length (hfound.symm.trans hall)
    simp only [List.length_map] at hlen
    have hfilter := List.length_filter_eq_length_iff.mp hlen
    simpa using hfilter
  · intro hpushed
    have hfilter : (recipes.filter fun r => !r.values.isEmpty) = recipes :=
      List.filter_eq_self.mpr fun r hr => by simpa using hpushed r hr
    rw [hfilter] at hframes
    exact delivers_parse id hframes

/-- A `MoveLeft` packet made by the constructor is never sent. -/
theorem bare_packet_lost : ¬ ∀ (id : UInt64) (recipes : List Recipe),
    Delivers id (wire recipes) (recipes.map Recipe.packet) := by
  intro hclaim
  have hlost := hclaim 0 [⟨.ofOpcode .moveLeft, [], by decide, by decide⟩] [] {} [] rfl .nil
  simp at hlost

end EndlessPeak
