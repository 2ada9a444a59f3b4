import EndlessPeak.Lib.Bytes

/-!
# Network packets

Models of `shared/protocol`: the opcodes (`opcodes.hpp`), `NetPacket` with its
packed header and its byte body (`net_packet.hpp`, `net_packet.cpp`), and
`ServerPacket` (`server_packet.hpp`).

The header fields are kept as the host integers the code stores; on a
little-endian host the getters and setters swap their bytes, so that the six
bytes of `PacketHead` in memory are the opcode and the size in network order
(`head_data_eq`). A `double` enters a packet through its 64 bits of object
representation; `std::size_t` is `UInt64`.

* `shl_body`: `packet << value` appends the bytes of `value` in network order.
* `getHeadOpcode_ofData`, `getHeadSize_ofData`: what the getters read from six
  received bytes.
-/

namespace EndlessPeak

open Lib

/-! ## Opcodes -/

/-- `enum class Opcodes : std::uint16_t`. -/
inductive Opcodes where
  | createPlayer
  | spawnPlayers
  | moveLeft
  | moveRight
  | jump
  | movePlayer
  | addPlayer
  | removePlayer
  deriving DecidableEq, Repr

/-- `to_uint16`. -/
def toUInt16 : Opcodes → UInt16
  | .createPlayer => 0x0003
  | .spawnPlayers => 0x0004
  | .moveLeft => 0x0012
  | .moveRight => 0x0013
  | .jump => 0x0014
  | .movePlayer => 0x0015
  | .addPlayer => 0x0016
  | .removePlayer => 0x0017

/-- `to_opcode`: the enumerator a wire value is cast to. The cast is defined for
    every value; `none` is a value that names no enumerator, for which a
    `switch` takes its `default` branch. -/
def toOpcode (opcode : UInt16) : Option Opcodes :=
  [Opcodes.createPlayer, .spawnPlayers, .moveLeft, .moveRight, .jump, .movePlayer, .addPlayer,
    .removePlayer].find? fun o => toUInt16 o == opcode

theorem toOpcode_eq_some_iff {opcode : UInt16} {o : Opcodes} :
    toOpcode opcode = some o ↔ opcode = toUInt16 o := by
  constructor
  · intro h
    have hfound := List.find?_some h
    exact (beq_iff_eq.mp hfound).symm
  · rintro rfl
    cases o <;> rfl

@[simp] theorem toOpcode_toUInt16 (o : Opcodes) : toOpcode (toUInt16 o) = some o :=
  toOpcode_eq_some_iff.mpr rfl

/-! ## The packet header -/

/-- `swap_endian` on an unsigned integer of `n` bytes: the object representation
    is reversed in place and read again. -/
def swapEndian (n v : ℕ) : ℕ := leNat (leBytes n v).reverse

/-- `packet_info::kMaxOpcode`. -/
def kMaxOpcode : UInt16 := 0x0FFF

/-- `packet_info::kMaxPayloadSize`. -/
def kMaxPayloadSize : UInt32 := 128

/-- `struct PacketHead`, packed: two bytes of opcode, four bytes of size. -/
structure PacketHead where
  opcode : UInt16 := 0
  size : UInt32 := 0
  deriving DecidableEq, Repr

/-- `sizeof(PacketHead)`. -/
def sizeofPacketHead : ℕ := 6

/-- The object representation of a header, what `GetHeadData` points to. -/
def PacketHead.data (head : PacketHead) : List UInt8 :=
  leBytes 2 head.opcode.toNat ++ leBytes 4 head.size.toNat

/-- The header whose object representation is `data`. -/
def PacketHead.ofData (data : List UInt8) : PacketHead where
  opcode := UInt16.ofNat (leNat (data.take 2))
  size := UInt32.ofNat (leNat (data.drop 2))

@[simp] theorem PacketHead.length_data (head : PacketHead) :
    head.data.length = sizeofPacketHead := by
  simp [PacketHead.data, sizeofPacketHead]

theorem PacketHead.toNat_opcode_ofData (data : List UInt8) :
    (PacketHead.ofData data).opcode.toNat = leNat (data.take 2) := by
  have hlt := leNat_lt (data.take 2)
  have hlen : (data.take 2).length ≤ 2 := List.length_take_le 2 data
  have hpow : 256 ^ (data.take 2).length ≤ 256 ^ 2 := Nat.pow_le_pow_right (by omega) hlen
  simp only [PacketHead.ofData, UInt16.toNat_ofNat']
  omega

theorem PacketHead.toNat_size_ofData {data : List UInt8} (h : data.length = sizeofPacketHead) :
    (PacketHead.ofData data).size.toNat = leNat (data.drop 2) := by
  have hlt := leNat_lt (data.drop 2)
  rw [show (data.drop 2).length = 4 by simp [h, sizeofPacketHead]] at hlt
  simp only [PacketHead.ofData, UInt32.toNat_ofNat']
  omega

theorem PacketHead.data_ofData {data : List UInt8} (h : data.length = sizeofPacketHead) :
    (PacketHead.ofData data).data = data := by
  have h2 : (data.take 2).length = 2 := by simp [h, sizeofPacketHead]
  have h4 : (data.drop 2).length = 4 := by simp [h, sizeofPacketHead]
  rw [PacketHead.data, PacketHead.toNat_opcode_ofData, PacketHead.toNat_size_ofData h,
    leBytes_leNat h2, leBytes_leNat h4, List.take_append_drop]

/-! ## `NetPacket` -/

/-- `class NetPacket`. A body that is `none` is a null `body_` pointer. -/
structure NetPacket where
  head : PacketHead := {}
  body : Option (List UInt8) := none
  deriving DecidableEq, Repr

namespace NetPacket

/-- `GetHeadOpcode`. -/
def getHeadOpcode (p : NetPacket) : UInt16 := UInt16.ofNat (swapEndian 2 p.head.opcode.toNat)

/-- `GetHeadSize`. -/
def getHeadSize (p : NetPacket) : UInt32 := UInt32.ofNat (swapEndian 4 p.head.size.toNat)

/-- `GetHeadData`: the bytes of the header in memory. -/
def headData (p : NetPacket) : List UInt8 := p.head.data

/-- `SetHeadOpcode`. -/
def setHeadOpcode (p : NetPacket) (opcode : UInt16) : NetPacket :=
  { p with head := { p.head with opcode := UInt16.ofNat (swapEndian 2 opcode.toNat) } }

/-- `SetHeadSize`. -/
def setHeadSize (p : NetPacket) (size : UInt32) : NetPacket :=
  { p with head := { p.head with size := UInt32.ofNat (swapEndian 4 size.toNat) } }

/-- `NetPacket(Opcodes opcode)`: `head_{swap_endian(to_uint16(opcode)), 0}`. -/
def ofOpcode (opcode : Opcodes) : NetPacket :=
  { head := { opcode := UInt16.ofNat (swapEndian 2 (toUInt16 opcode).toNat), size := 0 } }

/-- The move constructor: the target takes header and body; the source is left
    with its opcode, size `0` and no body. -/
def move (other : NetPacket) : NetPacket × NetPacket :=
  (other, { head := { other.head with size := 0 }, body := none })

/-- `GetBodySize`. -/
def getBodySize (p : NetPacket) : ℕ :=
  match p.body with
  | none => 0
  | some body => body.length

/-- `GetBodyData`: the offset in the body of the address it returns, its first byte;
    `none` is the null pointer, for a missing body and for an empty vector without storage. A
    vector that `>>` has emptied would keep its storage; those of the framer are new. -/
def getBodyData (p : NetPacket) : Option ℕ :=
  match p.body with
  | none => none
  | some body => if body.isEmpty then none else some 0

/-- `ResizeBody`: a new vector of `size` zero bytes, or `std::vector::resize`. -/
def resizeBody (p : NetPacket) (size : ℕ) : NetPacket :=
  match p.body with
  | none => { p with body := some (List.replicate size 0) }
  | some body => { p with body := some (body.take size ++ List.replicate (size - body.length) 0) }

/-- `IsValidHeader`. -/
def isValidHeader (p : NetPacket) : Bool :=
  decide (p.getHeadOpcode < kMaxOpcode) && decide (p.getHeadSize < kMaxPayloadSize)

/-- `MakeBuffer`. -/
def makeBuffer (p : NetPacket) : List UInt8 :=
  match p.body with
  | none => []
  | some body => p.head.data ++ body

end NetPacket

/-- `concept PodType`: a type with an object representation, here the list of its
    bytes in memory. -/
class PodType (T : Type) where
  repr : T → List UInt8

instance : PodType UInt8 := ⟨fun v => leBytes 1 v.toNat⟩
instance : PodType UInt16 := ⟨fun v => leBytes 2 v.toNat⟩
instance : PodType UInt32 := ⟨fun v => leBytes 4 v.toNat⟩
instance : PodType UInt64 := ⟨fun v => leBytes 8 v.toNat⟩

/-- `operator<<`: a missing body is created, the value is swapped to network
    order, the body grows by `sizeof(T)` and the value is copied to its end; then
    the header size is set to the body size (truncated to 32 bits). -/
def NetPacket.shl {T : Type} [PodType T] (packet : NetPacket) (value : T) : NetPacket :=
  let packet := { packet with body := some (packet.body.getD []) }
  let bytes := (PodType.repr value).reverse
  let offset := packet.getBodySize
  let packet := packet.resizeBody (offset + bytes.length)
  let packet := { packet with body := packet.body.map fun body => writeAt body offset bytes }
  packet.setHeadSize (UInt32.ofNat packet.getBodySize)

instance {T : Type} [PodType T] : HShiftLeft NetPacket T NetPacket := ⟨NetPacket.shl⟩

/-! ## Packet builders -/

/-- `CreatePlayerPacket`; `x` and `y` are the bits of the two doubles. -/
def createPlayerPacket (id x y : UInt64) (width height : UInt8) : NetPacket :=
  ({} : NetPacket).setHeadOpcode (toUInt16 .createPlayer) <<< id <<< x <<< y <<< width <<< height

/-- `AddPlayerPacket`. -/
def addPlayerPacket (id x y : UInt64) (width height : UInt8) : NetPacket :=
  ({} : NetPacket).setHeadOpcode (toUInt16 .addPlayer) <<< id <<< x <<< y <<< width <<< height

/-- `RemovePlayerPacket`. -/
def removePlayerPacket (id : UInt64) : NetPacket :=
  ({} : NetPacket).setHeadOpcode (toUInt16 .removePlayer) <<< id

/-- `MovePlayerPacket`. -/
def movePlayerPacket (id x y : UInt64) : NetPacket :=
  ({} : NetPacket).setHeadOpcode (toUInt16 .movePlayer) <<< id <<< x <<< y

/-! ## `ServerPacket` -/

/-- `enum class PacketType`. -/
inductive PacketType where
  | broadcast
  | rpc
  | rpcOthers
  deriving DecidableEq, Repr

/-- `class ServerPacket`: a packet with the session id it is about or came from. -/
structure ServerPacket where
  packet : NetPacket
  id : UInt64
  type : PacketType := .broadcast
  deriving DecidableEq, Repr

/-- `GetNetPacket`: the packet is moved out of the `ServerPacket`, which its
    callers drop afterwards. -/
def ServerPacket.getNetPacket (p : ServerPacket) : NetPacket := p.packet.move.1

@[simp] theorem ServerPacket.getNetPacket_eq (p : ServerPacket) : p.getNetPacket = p.packet := rfl

/-- `std::make_unique<ServerPacket>(NetPacket(opcode), id)`. -/
def ServerPacket.ofOpcode (opcode : Opcodes) (id : UInt64) : ServerPacket :=
  { packet := .ofOpcode opcode, id := id }

@[simp] theorem ServerPacket.ofOpcode_id (o : Opcodes) (id : UInt64) :
    (ServerPacket.ofOpcode o id).id = id := rfl

/-- The opcode of a packet, if it names one. -/
def ServerPacket.opcode (p : ServerPacket) : Option Opcodes := toOpcode p.packet.getHeadOpcode

/-- The packet type selects the session `id`: `Broadcast` every session, `Rpc` the
    packet's own, `RpcOthers` all but the packet's own. -/
def ServerPacket.AddressedTo (p : ServerPacket) (id : UInt64) : Prop :=
  match p.type with
  | .broadcast => True
  | .rpc => id = p.id
  | .rpcOthers => id ≠ p.id

instance (p : ServerPacket) (id : UInt64) : Decidable (p.AddressedTo id) := by
  unfold ServerPacket.AddressedTo
  split <;> infer_instance

/-! ## What the accessors read -/

theorem swapEndian_lt (n v : ℕ) : swapEndian n v < 256 ^ n := by
  simpa [swapEndian] using leNat_lt (leBytes n v).reverse

theorem leBytes_swapEndian (n v : ℕ) : leBytes n (swapEndian n v) = beBytes n v := by
  rw [swapEndian, leBytes_leNat (by simp)]; rfl

/-- Swapping twice gives the value back. -/
theorem swapEndian_swapEndian {n v : ℕ} (h : v < 256 ^ n) : swapEndian n (swapEndian n v) = v := by
  rw [swapEndian, leBytes_swapEndian, beBytes, List.reverse_reverse, leNat_leBytes,
    Nat.mod_eq_of_lt h]

theorem toNat_swap16 (v : ℕ) : (UInt16.ofNat (swapEndian 2 v)).toNat = swapEndian 2 v := by
  have := swapEndian_lt 2 v
  simp only [UInt16.toNat_ofNat']; omega

theorem toNat_swap32 (v : ℕ) : (UInt32.ofNat (swapEndian 4 v)).toNat = swapEndian 4 v := by
  have := swapEndian_lt 4 v
  simp only [UInt32.toNat_ofNat']; omega

namespace NetPacket

@[simp] theorem getHeadOpcode_setHeadOpcode (p : NetPacket) (opcode : UInt16) :
    (p.setHeadOpcode opcode).getHeadOpcode = opcode := by
  have := opcode.toNat_lt
  simp only [setHeadOpcode, getHeadOpcode]
  rw [toNat_swap16, swapEndian_swapEndian (by omega), UInt16.ofNat_toNat]

@[simp] theorem getHeadOpcode_setHeadSize (p : NetPacket) (size : UInt32) :
    (p.setHeadSize size).getHeadOpcode = p.getHeadOpcode := rfl

@[simp] theorem getHeadSize_setHeadSize (p : NetPacket) (size : UInt32) :
    (p.setHeadSize size).getHeadSize = size := by
  have := size.toNat_lt
  simp only [setHeadSize, getHeadSize]
  rw [toNat_swap32, swapEndian_swapEndian (by omega), UInt32.ofNat_toNat]

@[simp] theorem setHeadSize_body (p : NetPacket) (size : UInt32) :
    (p.setHeadSize size).body = p.body := rfl

@[simp] theorem setHeadOpcode_body (p : NetPacket) (opcode : UInt16) :
    (p.setHeadOpcode opcode).body = p.body := rfl

@[simp] theorem getHeadOpcode_ofOpcode (o : Opcodes) :
    (ofOpcode o).getHeadOpcode = toUInt16 o := by
  have := (toUInt16 o).toNat_lt
  simp only [ofOpcode, getHeadOpcode]
  rw [toNat_swap16, swapEndian_swapEndian (by omega), UInt16.ofNat_toNat]

@[simp] theorem opcode_ofOpcode (o : Opcodes) (id : UInt64) :
    (ServerPacket.ofOpcode o id).opcode = some o := by
  simp [ServerPacket.ofOpcode, ServerPacket.opcode]

/-- The header in memory is opcode and size in network order. -/
theorem head_data_eq (p : NetPacket) :
    p.head.data = beBytes 2 p.getHeadOpcode.toNat ++ beBytes 4 p.getHeadSize.toNat := by
  have h2 := p.head.opcode.toNat_lt
  have h4 := p.head.size.toNat_lt
  rw [PacketHead.data, getHeadOpcode, getHeadSize, toNat_swap16, toNat_swap32,
    ← leBytes_swapEndian, ← leBytes_swapEndian, swapEndian_swapEndian (by omega),
    swapEndian_swapEndian (by omega)]

/-- The opcode read from six received bytes. -/
theorem getHeadOpcode_ofData {data : List UInt8} (h : data.length = sizeofPacketHead)
    (body : Option (List UInt8)) :
    getHeadOpcode { head := PacketHead.ofData data, body } =
      UInt16.ofNat (beNat (data.take 2)) := by
  have h2 : (data.take 2).length = 2 := by simp [h, sizeofPacketHead]
  simp only [getHeadOpcode, PacketHead.toNat_opcode_ofData, swapEndian, leBytes_leNat h2, beNat]

/-- The size read from six received bytes. -/
theorem getHeadSize_ofData {data : List UInt8} (h : data.length = sizeofPacketHead)
    (body : Option (List UInt8)) :
    getHeadSize { head := PacketHead.ofData data, body } = UInt32.ofNat (beNat (data.drop 2)) := by
  have h4 : (data.drop 2).length = 4 := by simp [h, sizeofPacketHead]
  simp only [getHeadSize, PacketHead.toNat_size_ofData h, swapEndian, leBytes_leNat h4, beNat]

theorem getBodySize_eq (p : NetPacket) : p.getBodySize = (p.body.getD []).length := by
  unfold getBodySize
  cases p.body <;> rfl

/-- `packet << value` appends the value in network order. -/
@[simp] theorem shl_body {T : Type} [PodType T] (p : NetPacket) (v : T) :
    (p <<< v).body = some (p.body.getD [] ++ (PodType.repr v).reverse) := by
  have h := writeAt_append (p.body.getD []) (List.replicate (PodType.repr v).length 0)
    (PodType.repr v).reverse (by simp)
  have htake : (p.body.getD []).take ((p.body.getD []).length + (PodType.repr v).length) =
      p.body.getD [] := List.take_of_length_le (by omega)
  simpa [HShiftLeft.hShiftLeft, shl, resizeBody, getBodySize, htake] using h

theorem shl_getHeadSize {T : Type} [PodType T] (p : NetPacket) (v : T) :
    (p <<< v).getHeadSize = UInt32.ofNat ((p <<< v).body.getD []).length := by
  simp only [HShiftLeft.hShiftLeft, shl, getHeadSize_setHeadSize, setHeadSize_body]
  rfl

@[simp] theorem shl_opcode {T : Type} [PodType T] (p : NetPacket) (v : T) :
    (p <<< v).getHeadOpcode = p.getHeadOpcode := by
  simp [HShiftLeft.hShiftLeft, shl, resizeBody, getHeadOpcode, setHeadSize]

/-- A packet with a body is written as its header and its body. -/
theorem makeBuffer_eq {p : NetPacket} (h : p.body ≠ none) :
    p.makeBuffer = p.head.data ++ p.body.getD [] := by
  obtain ⟨body, hbody⟩ := Option.ne_none_iff_exists'.mp h
  simp [makeBuffer, hbody]

theorem makeBuffer_nil {p : NetPacket} (h : p.body = none) : p.makeBuffer = [] := by
  simp [makeBuffer, h]

end NetPacket

end EndlessPeak
