import EndlessPeak.Net.Framing

/-!
# The buffers a session offers the socket

`PacketHandler` hands out addresses and sizes: `HeadCurrentData` with
`HeadSizeLeft`, `BodyCurrentData` with `BodySizeLeft`
(`net/session/packet_handler.hpp`). An address is its offset in the buffer it
points into. A size is the difference of two `size_t` values, and the code does
not look whether it wraps.

`readLoop?` is the read loop of a session that looks: at every place where
`ReadPacketHead`, `ReadPacketBody` and their completion handlers evaluate one of
these functions, it stops with `none` if a subtraction wraps, if the address is
null, or if the offered bytes are not all in their buffer.

* `startsRead_of_inv`: what a read is started with, from the loop's invariant.
* `onRead?_eq`: with the invariant, no check of a completion fails.
* `receive_buffer_safe`: both at every read of every run, and the checked loop
  goes through.
-/

namespace EndlessPeak

open Lib

namespace PacketHandler

/-- `HeadCurrentData`: the offset in the header of the address it returns. -/
def headCurrentData (h : PacketHandler) : ℕ := h.headAlreadyRead

/-- `BodyCurrentData`: the offset in the body of the address it returns; `none` is
    `nullptr`. -/
def bodyCurrentData (h : PacketHandler) : Option ℕ :=
  h.packet.getBodyData.map fun data => data + h.bodyAlreadyRead

/-- `HeadSizeLeft`, where it does not wrap. -/
def headSizeLeft? (h : PacketHandler) : Option ℕ := sizeSub? sizeofPacketHead h.headAlreadyRead

/-- `BodySizeLeft`, where it does not wrap. -/
def bodySizeLeft? (h : PacketHandler) : Option ℕ :=
  sizeSub? h.packet.getBodySize h.bodyAlreadyRead

theorem headSizeLeft?_eq {h : PacketHandler} (hle : h.headAlreadyRead ≤ sizeofPacketHead) :
    h.headSizeLeft? = some h.headSizeLeft := sizeSub?_eq hle

theorem bodySizeLeft?_eq {h : PacketHandler} (hle : h.bodyAlreadyRead ≤ h.packet.getBodySize) :
    h.bodySizeLeft? = some h.bodySizeLeft := sizeSub?_eq hle

end PacketHandler

namespace Reader

/-! ## What a read is started with -/

/-- `ReadPacketHead` is called on `h`: the header is incomplete, nothing of a body
    is there, and the offered bytes are the missing ones of the header. -/
structure StartsHead (h : PacketHandler) : Prop where
  head_lt : h.headAlreadyRead < sizeofPacketHead
  body_zero : h.bodyAlreadyRead = 0
  no_body : h.packet.body = none
  size_pos : 1 ≤ h.headSizeLeft
  size_le : h.headSizeLeft ≤ sizeofPacketHead
  size_end : h.headCurrentData + h.headSizeLeft = sizeofPacketHead

/-- `ReadPacketBody` is called on `h`: the header is valid and gives the size `n`
    of the body, the body is incomplete, and the offered bytes are its missing
    ones, at an address that is not null. -/
structure StartsBody (h : PacketHandler) (n : ℕ) : Prop where
  valid : h.packet.isValidHeader = true
  head_size : h.packet.getHeadSize.toNat = n
  has_body : ∃ body, h.packet.body = some body ∧ body.length = n
  pos : 1 ≤ n
  le : n ≤ 127
  body_lt : h.bodyAlreadyRead < n
  size_pos : 1 ≤ h.bodySizeLeft
  size_le : h.bodySizeLeft ≤ n
  size_end : ∃ start, h.bodyCurrentData = some start ∧ start < n ∧ start + h.bodySizeLeft = n

/-- What holds when the outstanding read of `r` is started. -/
def StartsRead (r : Reader) : Prop :=
  match r.op with
  | .head => StartsHead r.handler
  | .body => ∃ n, StartsBody r.handler n

theorem startsHead_of_inv {h : PacketHandler} (hinv : HeadInv h) : StartsHead h := by
  obtain ⟨hlt, hzero, hbody⟩ := hinv
  have hsize : h.headSizeLeft = sizeofPacketHead - h.headAlreadyRead :=
    sizeSub_eq hlt.le (by decide)
  have hstart : h.headCurrentData = h.headAlreadyRead := rfl
  exact ⟨hlt, hzero, hbody, by omega, by omega, by omega⟩

theorem startsBody_of_inv {h : PacketHandler} {body : List UInt8} (hinv : BodyInv h body) :
    StartsBody h body.length := by
  have hsize : h.bodySizeLeft = body.length - h.bodyAlreadyRead :=
    limit_body (r := { handler := h, op := .body }) rfl hinv
  obtain ⟨-, hvalid, hbody, hlen, hlt⟩ := hinv
  have hle : body.length < 128 := by
    rw [hlen]
    exact isValidHeader_size hvalid
  have hne : body.isEmpty = false := by
    rw [List.isEmpty_eq_false_iff_exists_mem]
    exact List.exists_mem_of_length_pos (by omega)
  have hstart : h.bodyCurrentData = some h.bodyAlreadyRead := by
    simp [PacketHandler.bodyCurrentData, NetPacket.getBodyData, hbody, hne]
  exact ⟨hvalid, hlen.symm, ⟨body, hbody, rfl⟩, by omega, by omega, hlt, by omega, by omega,
    _, hstart, hlt, by omega⟩

theorem startsRead_of_inv {r : Reader} (hr : r.Inv) : r.StartsRead := by
  obtain ⟨h, op⟩ := r
  cases op with
  | head => exact startsHead_of_inv hr
  | body =>
    obtain ⟨body, hinv⟩ : ∃ body, BodyInv h body := hr
    exact ⟨body.length, startsBody_of_inv hinv⟩

theorem alreadyRead_le_of_inv {r : Reader} (hr : r.Inv) :
    r.handler.headAlreadyRead ≤ sizeofPacketHead ∧
      r.handler.bodyAlreadyRead ≤ r.handler.packet.getBodySize := by
  obtain ⟨h, op⟩ := r
  cases op with
  | head =>
    obtain ⟨hlt, hzero, -⟩ : HeadInv h := hr
    refine ⟨hlt.le, ?_⟩
    show h.bodyAlreadyRead ≤ h.packet.getBodySize
    omega
  | body =>
    obtain ⟨body, hread, -, hbody, -, hlt⟩ : ∃ body, BodyInv h body := hr
    refine ⟨hread.le, ?_⟩
    show h.bodyAlreadyRead ≤ h.packet.getBodySize
    rw [NetPacket.getBodySize_eq, hbody]
    exact hlt.le

/-! ## The checked loop -/

/-- `ReadPacketHead`, checked. -/
def readPacketHead? (h : PacketHandler) : Option Reader := do
  let size ← h.headSizeLeft?
  if h.headCurrentData + size ≤ sizeofPacketHead then some { handler := h, op := .head }
  else none

/-- `ReadPacketBody`, checked. -/
def readPacketBody? (h : PacketHandler) : Option Reader := do
  let start ← h.bodyCurrentData
  let size ← h.bodySizeLeft?
  if start + size ≤ h.packet.getBodySize then some { handler := h, op := .body } else none

/-- `pushPacket`, checked. -/
def pushPacket? (id : UInt64) (h : PacketHandler) : Option (Reader × List ServerPacket) := do
  let (packet, h) := h.extractPacket
  let r ← readPacketHead? h
  return (r, [{ packet, id }])

/-- The completion handler of `ReadPacketHead`, checked. -/
def onReadHead? (id : UInt64) (h : PacketHandler) (chunk : List UInt8) :
    Option (Reader × List ServerPacket) :=
  let (h, done) := (h.receiveHead chunk).updateHeadSize chunk.length
  if !done then (readPacketHead? h).map fun r => (r, [])
  else do
    -- the size is evaluated here once more, before any body has been received
    let size ← h.bodySizeLeft?
    if size ≠ 0 then (readPacketBody? h).map fun r => (r, []) else pushPacket? id h

/-- The completion handler of `ReadPacketBody`, checked. -/
def onReadBody? (id : UInt64) (h : PacketHandler) (chunk : List UInt8) :
    Option (Reader × List ServerPacket) :=
  let (h, done) := (h.receiveBody chunk).updateBodySize chunk.length
  if !done then (readPacketBody? h).map fun r => (r, []) else pushPacket? id h

/-- The outstanding read completes with `chunk`, checked. -/
def onRead? (id : UInt64) (r : Reader) (chunk : List UInt8) :
    Option (Reader × List ServerPacket) :=
  match r.op with
  | .head => onReadHead? id r.handler chunk
  | .body => onReadBody? id r.handler chunk

/-! ### No check fails -/

theorem readPacketHead?_of_fits {h : PacketHandler} {size : ℕ} (hsize : h.headSizeLeft? = some size)
    (hfits : h.headCurrentData + size ≤ sizeofPacketHead) :
    readPacketHead? h = some { handler := h, op := .head } := by
  rw [readPacketHead?, hsize]
  exact if_pos hfits

theorem readPacketBody?_of_fits {h : PacketHandler} {start size : ℕ}
    (hstart : h.bodyCurrentData = some start) (hsize : h.bodySizeLeft? = some size)
    (hfits : start + size ≤ h.packet.getBodySize) :
    readPacketBody? h = some { handler := h, op := .body } := by
  rw [readPacketBody?, hstart, hsize]
  exact if_pos hfits

theorem readPacketHead?_eq {h : PacketHandler} (hs : StartsHead h) :
    readPacketHead? h = some { handler := h, op := .head } :=
  readPacketHead?_of_fits (PacketHandler.headSizeLeft?_eq hs.head_lt.le) hs.size_end.le

theorem readPacketBody?_eq {h : PacketHandler} {n : ℕ} (hs : StartsBody h n) :
    readPacketBody? h = some { handler := h, op := .body } := by
  obtain ⟨body, hbody, hlen⟩ := hs.has_body
  obtain ⟨start, hstart, -, hend⟩ := hs.size_end
  have hbodySize : h.packet.getBodySize = n := by
    rw [NetPacket.getBodySize_eq, hbody]
    exact hlen
  have hle : h.bodyAlreadyRead ≤ h.packet.getBodySize := by
    rw [hbodySize]
    exact hs.body_lt.le
  exact readPacketBody?_of_fits hstart (PacketHandler.bodySizeLeft?_eq hle)
    (by rw [hbodySize]; exact hend.le)

/-- The packet is moved out and the counters are reset, so the next header is read
    from its first byte on. -/
theorem pushPacket?_eq (id : UInt64) (h : PacketHandler) :
    pushPacket? id h = some (pushPacket id h) := by
  have hs : StartsHead h.extractPacket.2 :=
    startsHead_of_inv ⟨by simp [PacketHandler.extractPacket, sizeofPacketHead], rfl, rfl⟩
  show (readPacketHead? h.extractPacket.2).bind _ = _
  rw [readPacketHead?_eq hs]
  rfl

theorem updateHeadSize_bodyAlreadyRead (h : PacketHandler) (n : ℕ) :
    (h.updateHeadSize n).1.bodyAlreadyRead = h.bodyAlreadyRead := by
  simp only [PacketHandler.updateHeadSize]
  split_ifs <;> rfl

theorem onReadHead?_eq (id : UInt64) {h : PacketHandler} {chunk : List UInt8}
    (hzero : h.bodyAlreadyRead = 0) (hnext : (onReadHead id h chunk).1.StartsRead) :
    onReadHead? id h chunk = some (onReadHead id h chunk) := by
  have hcount := updateHeadSize_bodyAlreadyRead (h.receiveHead chunk) chunk.length
  simp only [onReadHead, onReadHead?] at hnext ⊢
  generalize (h.receiveHead chunk).updateHeadSize chunk.length = res at hcount hnext ⊢
  obtain ⟨h', done⟩ := res
  have hzero' : h'.bodyAlreadyRead = 0 := hcount.trans hzero
  cases done with
  | false =>
    simp only [Bool.not_false, if_true] at hnext ⊢
    have hs : StartsHead h' := hnext
    rw [readPacketHead?_eq hs, Option.map_some]
  | true =>
    have hleft : h'.bodySizeLeft? = some h'.bodySizeLeft :=
      PacketHandler.bodySizeLeft?_eq (by omega)
    simp only [Bool.not_true, Bool.false_eq_true, if_false] at hnext ⊢
    rw [hleft, Option.bind_eq_bind, Option.bind_some]
    -- only whether the size is zero matters from here on
    generalize h'.bodySizeLeft = size at hnext ⊢
    by_cases hempty : size = 0
    · rw [if_neg (not_not.mpr hempty), if_neg (not_not.mpr hempty), pushPacket?_eq]
    · rw [if_pos hempty] at hnext
      obtain ⟨n, hs⟩ : ∃ n, StartsBody h' n := hnext
      rw [if_pos hempty, if_pos hempty, readPacketBody?_eq hs, Option.map_some]

theorem onReadBody?_eq (id : UInt64) {h : PacketHandler} {chunk : List UInt8}
    (hnext : (onReadBody id h chunk).1.StartsRead) :
    onReadBody? id h chunk = some (onReadBody id h chunk) := by
  simp only [onReadBody, onReadBody?] at hnext ⊢
  generalize (h.receiveBody chunk).updateBodySize chunk.length = res at hnext ⊢
  obtain ⟨h', done⟩ := res
  cases done with
  | false =>
    simp only [Bool.not_false, if_true] at hnext ⊢
    obtain ⟨n, hs⟩ : ∃ n, StartsBody h' n := hnext
    rw [readPacketBody?_eq hs, Option.map_some]
  | true =>
    simp only [Bool.not_true, Bool.false_eq_true, if_false]
    rw [pushPacket?_eq]

/-- The step lemma: from a state that keeps the invariant, and with a chunk within
    the offered limit, a completion fails no check and does what the loop does. -/
theorem onRead?_eq (id : UInt64) {r : Reader} (hr : r.Inv) {chunk : List UInt8}
    (hlim : chunk.length ≤ r.limit) : r.onRead? id chunk = some (r.onRead id chunk) := by
  have hnext : (r.onRead id chunk).1.StartsRead :=
    startsRead_of_inv (accounts_onRead id hr hlim).inv
  obtain ⟨h, op⟩ := r
  cases op with
  | head =>
    have hinv : HeadInv h := hr
    exact onReadHead?_eq id hinv.body_zero hnext
  | body => exact onReadBody?_eq id hnext

end Reader

/-! ## Whole streams -/

/-- A read completion of session `id`, checked. -/
def readNext? (id : UInt64) (s : Reader × List ServerPacket) (chunk : List UInt8) :
    Option (Reader × List ServerPacket) :=
  (s.1.onRead? id chunk).map fun res => (res.1, s.2 ++ res.2)

/-- The first `ReadPacketHead` of session `id` and the completions with `chunks`,
    checked. -/
def readLoop? (id : UInt64) (chunks : List (List UInt8)) :
    Option (Reader × List ServerPacket) := do
  let r ← Reader.readPacketHead? {}
  chunks.foldlM (readNext? id) (r, [])

/-- The run lemma: the checked loop goes through every run of the loop. -/
theorem readLoop?_eq {id : UInt64} {chunks : List (List UInt8)} {s : Reader × List ServerPacket}
    (h : Run (readNext id) ({}, []) chunks s) : readLoop? id chunks = some s := by
  have hfirst : Reader.readPacketHead? {} = some {} :=
    Reader.readPacketHead?_eq (Reader.startsHead_of_inv Reader.inv_init)
  rw [readLoop?, hfirst, Option.bind_eq_bind, Option.bind_some, ← run_iff_foldlM]
  -- every step of the run is a step of the checked loop, since the state before it
  -- keeps the invariant
  induction h with
  | nil => exact .nil
  | @snoc ls chunk s s' hrun hn ih =>
    refine ih.snoc ?_
    obtain ⟨hlim, rfl⟩ := hn
    have hread := Reader.onRead?_eq id (accounts_run hrun).inv hlim
    rw [stepRel, readNext?, hread, Option.map_some]

/-- For every byte stream and every sequence of chunk sizes within the offered
    limits: when a header read is started the handler is ready for one and offers
    the missing bytes of the header, when a body read is started it offers the
    missing bytes of a body of 1 to 127 bytes at an address inside it; neither
    counter has passed the size it is subtracted from, and up to here no
    subtraction has wrapped and no offer has left its buffer. -/
theorem receive_buffer_safe {id : UInt64} {chunks : List (List UInt8)} {r : Reader}
    {pushed : List ServerPacket} (h : Run (readNext id) ({}, []) chunks (r, pushed)) :
    r.StartsRead ∧ r.handler.headAlreadyRead ≤ sizeofPacketHead ∧
      r.handler.bodyAlreadyRead ≤ r.handler.packet.getBodySize ∧
      readLoop? id chunks = some (r, pushed) := by
  have hinv : r.Inv := (accounts_run h).inv
  obtain ⟨hhead, hbody⟩ := Reader.alreadyRead_le_of_inv hinv
  exact ⟨Reader.startsRead_of_inv hinv, hhead, hbody, readLoop?_eq h⟩

/-- A header in two pieces with an empty read between them, then one byte of a body
    of three. -/
theorem receive_buffer_safe_partial_body :
    let r : Reader := {
      handler := {
        headAlreadyRead := 6
        bodyAlreadyRead := 1
        packet := { head := { opcode := 0x1200, size := 0x03000000 }, body := some [9, 0, 0] } }
      op := .body }
    r.StartsRead ∧ r.handler.headAlreadyRead ≤ sizeofPacketHead ∧
      r.handler.bodyAlreadyRead ≤ r.handler.packet.getBodySize ∧
      readLoop? 7 [[0, 0x12], [], [0, 0, 0, 3], [9]] = some (r, []) :=
  have hhead : Run (readNext 7) ({}, []) [[0, 0x12], []]
      ({ handler := { headAlreadyRead := 2, packet := { head := { opcode := 0x1200 } } } }, []) :=
    (Run.nil.snoc ⟨by decide, rfl⟩).snoc ⟨by decide, by decide⟩
  have hbody : Run (readNext 7) ({}, []) [[0, 0x12], [], [0, 0, 0, 3]]
      ({ handler := {
          headAlreadyRead := 6
          packet := { head := { opcode := 0x1200, size := 0x03000000 }, body := some [0, 0, 0] } }
         op := .body }, []) :=
    hhead.snoc ⟨by decide, by decide⟩
  receive_buffer_safe (hbody.snoc ⟨by decide, by decide⟩)

end EndlessPeak
