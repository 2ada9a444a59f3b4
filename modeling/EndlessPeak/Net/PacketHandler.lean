import EndlessPeak.Protocol.NetPacket

/-!
# The receive side of a session

Models of `PacketHandler` (`net/session/packet_handler.{hpp,cpp}`) and of the
read loop of `Session` (`ReadPacketHead` and `ReadPacketBody` in
`net/session/session.cpp`, lines 84–160), on successful read completions.

A `Reader` is the handler together with the read operation that is outstanding.
`Reader.onRead` is what happens when that operation completes: the socket has
written `chunk` at the address the loop offered, and the completion handler
runs, pushes at most one packet to the server and starts the next read. The
socket delivers at most `Reader.limit` bytes.

* `Reader.Inv`: between completions the two counters, the header and the body fit
  together.
* `Reader.residual`: the received bytes that belong to no pushed packet yet.
-/

namespace EndlessPeak

open Lib

/-! ## `PacketHandler` -/

/-- `class PacketHandler`. -/
structure PacketHandler where
  headAlreadyRead : ℕ := 0
  bodyAlreadyRead : ℕ := 0
  packet : NetPacket := {}
  deriving DecidableEq, Repr

namespace PacketHandler

/-- `HeadSizeLeft`. -/
def headSizeLeft (h : PacketHandler) : ℕ := sizeSub sizeofPacketHead h.headAlreadyRead

/-- `BodySizeLeft`. -/
def bodySizeLeft (h : PacketHandler) : ℕ := sizeSub h.packet.getBodySize h.bodyAlreadyRead

/-- The socket stores `chunk` at `HeadCurrentData()`. -/
def receiveHead (h : PacketHandler) (chunk : List UInt8) : PacketHandler :=
  { h with packet := { h.packet with
      head := PacketHead.ofData (writeAt h.packet.headData h.headAlreadyRead chunk) } }

/-- The socket stores `chunk` at `BodyCurrentData()`. -/
def receiveBody (h : PacketHandler) (chunk : List UInt8) : PacketHandler :=
  { h with packet := { h.packet with
      body := h.packet.body.map fun body => writeAt body h.bodyAlreadyRead chunk } }

/-- `ExtractPacket`. -/
def extractPacket (h : PacketHandler) : NetPacket × PacketHandler :=
  let (packet, rest) := h.packet.move
  (packet, { headAlreadyRead := 0, bodyAlreadyRead := 0, packet := rest })

/-- `UpdateHeadSize`. -/
def updateHeadSize (h : PacketHandler) (size : ℕ) : PacketHandler × Bool :=
  let h := { h with headAlreadyRead := sizeAdd h.headAlreadyRead size }
  -- Not the entire packet header has been read.
  if h.headAlreadyRead < sizeofPacketHead then (h, false)
  -- The header is dropped; the next read starts over at its first byte.
  else if !h.packet.isValidHeader then ({ h with headAlreadyRead := 0 }, false)
  else ({ h with packet := h.packet.resizeBody h.packet.getHeadSize.toNat }, true)

/-- `UpdateBodySize`. -/
def updateBodySize (h : PacketHandler) (size : ℕ) : PacketHandler × Bool :=
  let h := { h with bodyAlreadyRead := sizeAdd h.bodyAlreadyRead size }
  if h.bodyAlreadyRead < h.packet.getHeadSize.toNat then (h, false)
  else ({ h with headAlreadyRead := 0, bodyAlreadyRead := 0 }, true)

/-! ### What the two updates do -/

theorem updateHeadSize_short {h : PacketHandler} {n : ℕ}
    (hlt : h.headAlreadyRead + n < sizeofPacketHead) :
    h.updateHeadSize n = ({ h with headAlreadyRead := h.headAlreadyRead + n }, false) := by
  have hadd : sizeAdd h.headAlreadyRead n = h.headAlreadyRead + n :=
    sizeAdd_eq (by simp only [sizeofPacketHead] at hlt; omega)
  simp [updateHeadSize, hadd, hlt]

theorem updateHeadSize_invalid {h : PacketHandler} {n : ℕ}
    (hfull : h.headAlreadyRead + n = sizeofPacketHead) (hv : h.packet.isValidHeader = false) :
    h.updateHeadSize n = ({ h with headAlreadyRead := 0 }, false) := by
  have hadd : sizeAdd h.headAlreadyRead n = sizeofPacketHead := by
    rw [sizeAdd_eq (by simp only [sizeofPacketHead] at hfull; omega), hfull]
  simp [updateHeadSize, hadd, hv]

theorem updateHeadSize_valid {h : PacketHandler} {n : ℕ}
    (hfull : h.headAlreadyRead + n = sizeofPacketHead) (hv : h.packet.isValidHeader = true) :
    h.updateHeadSize n = ({ h with
      headAlreadyRead := sizeofPacketHead
      packet := h.packet.resizeBody h.packet.getHeadSize.toNat }, true) := by
  have hadd : sizeAdd h.headAlreadyRead n = sizeofPacketHead := by
    rw [sizeAdd_eq (by simp only [sizeofPacketHead] at hfull; omega), hfull]
  simp [updateHeadSize, hadd, hv]

theorem updateBodySize_short {h : PacketHandler} {n : ℕ}
    (hlt : h.bodyAlreadyRead + n < h.packet.getHeadSize.toNat) :
    h.updateBodySize n = ({ h with bodyAlreadyRead := h.bodyAlreadyRead + n }, false) := by
  have hsize := h.packet.getHeadSize.toNat_lt
  have hadd : sizeAdd h.bodyAlreadyRead n = h.bodyAlreadyRead + n := sizeAdd_eq (by omega)
  simp [updateBodySize, hadd, hlt]

theorem updateBodySize_done {h : PacketHandler} {n : ℕ}
    (hfull : h.bodyAlreadyRead + n = h.packet.getHeadSize.toNat) :
    h.updateBodySize n = ({ h with headAlreadyRead := 0, bodyAlreadyRead := 0 }, true) := by
  have hsize := h.packet.getHeadSize.toNat_lt
  have hadd : sizeAdd h.bodyAlreadyRead n = h.packet.getHeadSize.toNat := by
    rw [sizeAdd_eq (by omega), hfull]
  simp [updateBodySize, hadd]

end PacketHandler

/-! ## The read loop -/

/-- Which `async_read_some` is outstanding: the one of `ReadPacketHead` or the
    one of `ReadPacketBody`. -/
inductive ReadOp where
  | head
  | body
  deriving DecidableEq, Repr

/-- The receive side of a session between two read completions. -/
structure Reader where
  handler : PacketHandler := {}
  op : ReadOp := .head
  deriving DecidableEq, Repr

namespace Reader

/-- The size limit the loop passed to the outstanding read. -/
def limit (r : Reader) : ℕ :=
  match r.op with
  | .head => r.handler.headSizeLeft
  | .body => r.handler.bodySizeLeft

/-- `PushPacket(ServerPacket(packet_handler_.ExtractPacket(), id_))`, then
    `ReadPacketHead()`. -/
def pushPacket (id : UInt64) (h : PacketHandler) : Reader × List ServerPacket :=
  let (packet, h) := h.extractPacket
  ({ handler := h, op := .head }, [{ packet, id }])

/-- The completion handler of `ReadPacketHead`. -/
def onReadHead (id : UInt64) (h : PacketHandler) (chunk : List UInt8) :
    Reader × List ServerPacket :=
  let (h, done) := (h.receiveHead chunk).updateHeadSize chunk.length
  if !done then ({ handler := h, op := .head }, [])
  else if h.bodySizeLeft ≠ 0 then ({ handler := h, op := .body }, [])
  else pushPacket id h

/-- The completion handler of `ReadPacketBody`. -/
def onReadBody (id : UInt64) (h : PacketHandler) (chunk : List UInt8) :
    Reader × List ServerPacket :=
  let (h, done) := (h.receiveBody chunk).updateBodySize chunk.length
  if !done then ({ handler := h, op := .body }, [])
  else pushPacket id h

/-- The outstanding read completes with `chunk`. -/
def onRead (id : UInt64) (r : Reader) (chunk : List UInt8) : Reader × List ServerPacket :=
  match r.op with
  | .head => onReadHead id r.handler chunk
  | .body => onReadBody id r.handler chunk

/-! ## The invariant between completions -/

/-- While a header is being read: fewer than six of its bytes are there, and
    nothing is left of the packet before. -/
structure HeadInv (h : PacketHandler) : Prop where
  head_lt : h.headAlreadyRead < sizeofPacketHead
  body_zero : h.bodyAlreadyRead = 0
  no_body : h.packet.body = none

/-- While a body is being read: the header is valid, the body has the size the
    header gives, between 1 and 127, and is not complete. -/
structure BodyInv (h : PacketHandler) (body : List UInt8) : Prop where
  head_read : h.headAlreadyRead = sizeofPacketHead
  valid : h.packet.isValidHeader = true
  has_body : h.packet.body = some body
  length_body : body.length = h.packet.getHeadSize.toNat
  body_lt : h.bodyAlreadyRead < body.length

/-- The invariant of the read loop between two completions. -/
def Inv (r : Reader) : Prop :=
  match r.op with
  | .head => HeadInv r.handler
  | .body => ∃ body, BodyInv r.handler body

/-- The received bytes that belong to no pushed packet yet. -/
def residual (r : Reader) : List UInt8 :=
  match r.op with
  | .head => r.handler.packet.headData.take r.handler.headAlreadyRead
  | .body => r.handler.packet.headData ++
      (r.handler.packet.body.getD []).take r.handler.bodyAlreadyRead

theorem inv_init : Inv {} := ⟨by decide, rfl, rfl⟩

@[simp] theorem residual_init : residual {} = [] := by simp [residual]

theorem isValidHeader_size {p : NetPacket} (h : p.isValidHeader = true) :
    p.getHeadSize.toNat < 128 := by
  simp only [NetPacket.isValidHeader, Bool.and_eq_true, decide_eq_true_eq] at h
  exact UInt32.lt_iff_toNat_lt.mp h.2

theorem limit_head {r : Reader} (hop : r.op = .head) (h : HeadInv r.handler) :
    r.limit = sizeofPacketHead - r.handler.headAlreadyRead := by
  rw [limit, hop]
  exact sizeSub_eq h.head_lt.le (by decide)

theorem limit_body {r : Reader} {body : List UInt8} (hop : r.op = .body)
    (h : BodyInv r.handler body) : r.limit = body.length - r.handler.bodyAlreadyRead := by
  have hs : r.handler.packet.getBodySize = body.length := by
    rw [NetPacket.getBodySize_eq, h.has_body, Option.getD_some]
  have hlt := isValidHeader_size h.valid
  rw [← h.length_body] at hlt
  rw [limit, hop]
  simp only [PacketHandler.bodySizeLeft, hs]
  exact sizeSub_eq h.body_lt.le (by omega)

end Reader

end EndlessPeak
