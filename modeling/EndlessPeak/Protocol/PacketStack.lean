import EndlessPeak.Lib.Run
import EndlessPeak.Protocol.NetPacket

/-!
# `NetPacket` as a stack of typed values

`operator>>` takes a value from the end of the body (`net_packet.hpp`). Values that are
popped with the type they were pushed with come back, last in first out; in between the
body is the concatenation of the values that are still there, in network order, and the
header size is its length.

* `NetPacket.shr_shl`: popping what has just been pushed.
* `represents_step`: one push or pop.
* `packet_isStack`: every interleaving of pushes and pops; what the builders write is read
  in reverse order; moved packets.
-/

namespace EndlessPeak

open Lib

/-! ## The model -/

/-- A `PodType` of `sizeof(T)` bytes, whose values are read back from these bytes. -/
class PodRead (T : Type) extends PodType T where
  size : ℕ
  ofRepr : List UInt8 → T
  length_repr : ∀ v : T, (repr v).length = size
  ofRepr_repr : ∀ v : T, ofRepr (repr v) = v

/-- `operator>>`: the last `sizeof(T)` bytes are copied and swapped to host order, and the
    body and the header size shrink to what is left. `none`: the body is shorter, and the
    copy reads outside of it. -/
def NetPacket.shr (T : Type) [PodRead T] (packet : NetPacket) : Option (T × NetPacket) :=
  let offset := sizeSub packet.getBodySize (PodRead.size T)
  let body := packet.body.getD []
  if offset + PodRead.size T ≤ body.length then
    let bytes := (body.drop offset).take (PodRead.size T)
    let value := PodRead.ofRepr bytes.reverse
    let packet := packet.resizeBody offset
    some (value, packet.setHeadSize (UInt32.ofNat offset))
  else none

/-- The move assignment, between two different objects: what the target and the source hold
    afterwards. -/
def NetPacket.moveAssign (_ other : NetPacket) : NetPacket × NetPacket :=
  ({ head := other.head, body := other.body },
    { head := { other.head with size := 0 }, body := none })

/-- A `double`, by its object representation. -/
structure Double where
  bits : UInt64
  deriving DecidableEq, Repr

/-! ## Types that are read back -/

theorem leNat_leBytes_of_lt {n v : ℕ} (h : v < 256 ^ n) : leNat (leBytes n v) = v := by
  rw [leNat_leBytes, Nat.mod_eq_of_lt h]

instance : PodRead UInt8 where
  size := 1
  ofRepr bytes := UInt8.ofNat (leNat bytes)
  length_repr v := length_leBytes 1 v.toNat
  ofRepr_repr v := by
    rw [PodType.repr, instPodTypeUInt8, leNat_leBytes_of_lt v.toNat_lt, UInt8.ofNat_toNat]

instance : PodRead UInt16 where
  size := 2
  ofRepr bytes := UInt16.ofNat (leNat bytes)
  length_repr v := length_leBytes 2 v.toNat
  ofRepr_repr v := by
    rw [PodType.repr, instPodTypeUInt16, leNat_leBytes_of_lt v.toNat_lt, UInt16.ofNat_toNat]

instance : PodRead UInt32 where
  size := 4
  ofRepr bytes := UInt32.ofNat (leNat bytes)
  length_repr v := length_leBytes 4 v.toNat
  ofRepr_repr v := by
    rw [PodType.repr, instPodTypeUInt32, leNat_leBytes_of_lt v.toNat_lt, UInt32.ofNat_toNat]

instance : PodRead UInt64 where
  size := 8
  ofRepr bytes := UInt64.ofNat (leNat bytes)
  length_repr v := length_leBytes 8 v.toNat
  ofRepr_repr v := by
    rw [PodType.repr, instPodTypeUInt64, leNat_leBytes_of_lt v.toNat_lt, UInt64.ofNat_toNat]

/-- A type with the object representation of another one. -/
@[reducible] def PodRead.via {T U : Type} [PodRead U] (bits : T → U) (ofBits : U → T)
    (h : ∀ v, ofBits (bits v) = v) : PodRead T where
  repr v := PodType.repr (bits v)
  size := PodRead.size U
  ofRepr bytes := ofBits (PodRead.ofRepr bytes)
  length_repr v := PodRead.length_repr (bits v)
  ofRepr_repr v := by rw [PodRead.ofRepr_repr, h]

instance : PodRead Int8 := .via Int8.toUInt8 Int8.ofUInt8 fun _ => rfl
instance : PodRead Int16 := .via Int16.toUInt16 Int16.ofUInt16 fun _ => rfl
instance : PodRead Int32 := .via Int32.toUInt32 Int32.ofUInt32 fun _ => rfl
instance : PodRead Int64 := .via Int64.toUInt64 Int64.ofUInt64 fun _ => rfl
instance : PodRead Double := .via Double.bits Double.mk fun _ => rfl

@[simp] theorem size_uint8 : PodRead.size UInt8 = 1 := rfl
@[simp] theorem size_uint64 : PodRead.size UInt64 = 8 := rfl
@[simp] theorem size_double : PodRead.size Double = 8 := rfl

/-! ## One push and pop -/

/-- The bytes that `packet << v` appends: the object representation in network order. -/
def netBytes {T : Type} [PodType T] (v : T) : List UInt8 := (PodType.repr v).reverse

@[simp] theorem length_netBytes {T : Type} [PodRead T] (v : T) :
    (netBytes v).length = PodRead.size T := by
  rw [netBytes, List.length_reverse, PodRead.length_repr]

namespace NetPacket

variable {T : Type} [PodRead T] {p : NetPacket}

/-- The packet with the body `body` and its size in the header. -/
def withBody (p : NetPacket) (body : List UInt8) : NetPacket :=
  { p with body := some body }.setHeadSize (UInt32.ofNat body.length)

@[simp] theorem withBody_body (p : NetPacket) (body : List UInt8) :
    (p.withBody body).body = some body := rfl
@[simp] theorem withBody_withBody (p : NetPacket) (body body' : List UInt8) :
    (p.withBody body).withBody body' = p.withBody body' := rfl
@[simp] theorem withBody_opcode (p : NetPacket) (body : List UInt8) :
    (p.withBody body).getHeadOpcode = p.getHeadOpcode := rfl
@[simp] theorem withBody_getHeadSize (p : NetPacket) (body : List UInt8) :
    (p.withBody body).getHeadSize = UInt32.ofNat body.length :=
  getHeadSize_setHeadSize _ _

theorem shl_eq (p : NetPacket) (v : T) : p <<< v = p.withBody (p.body.getD [] ++ netBytes v) := by
  have hbody := shl_body p v
  have hhead : (p <<< v).head =
      (p.setHeadSize (UInt32.ofNat ((p <<< v).body.getD []).length)).head := by
    rw [← getBodySize_eq]
    simp only [HShiftLeft.hShiftLeft, shl, resizeBody, setHeadSize]
    rfl
  rw [hbody] at hhead
  cases hp : p <<< v with
  | mk head body =>
    rw [hp] at hbody hhead
    rw [withBody, setHeadSize, mk.injEq]
    exact ⟨hhead, hbody⟩

@[simp] theorem resizeBody_append {body rest : List UInt8} (h : p.body.getD [] = body ++ rest) :
    p.resizeBody body.length = { p with body := some body } := by
  unfold resizeBody
  cases hp : p.body with
  | none =>
    rw [hp, Option.getD_none] at h
    obtain ⟨rfl, -⟩ := List.append_eq_nil_iff.mp h.symm
    rfl
  | some bytes =>
    rw [hp, Option.getD_some] at h
    subst h
    simp

/-- A body that ends with a value of the type that is read. -/
theorem shr_of_body {body : List UInt8} (v : T) (h : p.body.getD [] = body ++ netBytes v)
    (hsize : body.length + PodRead.size T < 2 ^ 64) :
    p.shr T = some (v, p.withBody body) := by
  have hlen : p.getBodySize = body.length + PodRead.size T := by
    rw [getBodySize_eq, h, List.length_append, length_netBytes]
  have hoffset : sizeSub p.getBodySize (PodRead.size T) = body.length := by
    rw [hlen, sizeSub_eq (by omega) hsize, Nat.add_sub_cancel]
  unfold shr
  simp only [hoffset, h, List.length_append, length_netBytes, le_refl, if_true, List.drop_left,
    resizeBody_append h]
  rw [List.take_of_length_le (by simp), netBytes, List.reverse_reverse, PodRead.ofRepr_repr]
  rfl

theorem shr_withBody (p : NetPacket) {body : List UInt8} (v : T)
    (hsize : body.length + PodRead.size T < 2 ^ 64) :
    (p.withBody (body ++ netBytes v)).shr T = some (v, p.withBody body) := by
  rw [shr_of_body v rfl hsize, withBody_withBody]

theorem shr_shl (p : NetPacket) (v : T) (hsize : p.getBodySize + PodRead.size T < 2 ^ 64) :
    (p <<< v).shr T = some (v, p.withBody (p.body.getD [])) := by
  rw [getBodySize_eq] at hsize
  rw [shl_eq, shr_withBody p v hsize]

end NetPacket

/-! ## Pushes and pops in any order -/

/-- A value with its type. -/
structure PodValue where
  {T : Type}
  [type : PodRead T]
  value : T

attribute [instance] PodValue.type

/-- What a value occupies in a body. -/
def PodValue.bytes (v : PodValue) : List UInt8 := netBytes v.value

/-- `packet << v`, or `packet >> w` with the value that `w` holds afterwards. -/
inductive StackOp where
  | push (v : PodValue)
  | pop (w : PodValue)

/-- A stack of values, as an abstract machine. -/
inductive StackNext : List PodValue → StackOp → List PodValue → Prop
  | push (v : PodValue) (stack : List PodValue) : StackNext stack (.push v) (v :: stack)
  | pop (v : PodValue) (stack : List PodValue) : StackNext (v :: stack) (.pop v) stack

/-- Uses of a packet, with the values that have been pushed and not yet popped: a pop reads
    the type of the topmost one, and the body stays below `2^32` bytes. -/
inductive PacketNext : NetPacket × List PodValue → StackOp → NetPacket × List PodValue → Prop
  | push {p : NetPacket} {stack : List PodValue} (v : PodValue)
      (hsize : (p <<< v.value).getBodySize < 2 ^ 32) :
      PacketNext (p, stack) (.push v) (p <<< v.value, v :: stack)
  | pop {p p' : NetPacket} {v : PodValue} {stack : List PodValue} {w : v.T}
      (hread : p.shr v.T = some (w, p')) :
      PacketNext (p, v :: stack) (.pop { value := w }) (p', stack)

/-- `p` has come from `start` and holds the values of `stack`, the last one pushed first. -/
structure Represents (start : NetPacket) (stack : List PodValue) (p : NetPacket) : Prop where
  body : p.body.getD [] = stack.reverse.flatMap PodValue.bytes
  size : p.getHeadSize.toNat = p.getBodySize
  opcode : p.getHeadOpcode = start.getHeadOpcode

section Stack

variable {start p p' : NetPacket} {stack stack' : List PodValue} {v : PodValue}

/-- The body of a packet is as long as its header says, so it is below `2^32` bytes. -/
theorem Represents.body_lt (h : Represents start stack p) : p.getBodySize < 2 ^ 32 := by
  rw [← h.size]
  exact p.getHeadSize.toNat_lt

theorem represents_withBody (hopcode : p.getHeadOpcode = start.getHeadOpcode)
    (hsize : (stack.reverse.flatMap PodValue.bytes).length < 2 ^ 32) :
    Represents start stack (p.withBody (stack.reverse.flatMap PodValue.bytes)) where
  body := rfl
  size := by
    rw [NetPacket.withBody_getHeadSize, NetPacket.getBodySize_eq, NetPacket.withBody_body,
      Option.getD_some, UInt32.toNat_ofNat']
    exact Nat.mod_eq_of_lt hsize
  opcode := by rw [NetPacket.withBody_opcode, hopcode]

theorem Represents.shr (h : Represents start (v :: stack) p) :
    p.shr v.T = some (v.value, p.withBody (stack.reverse.flatMap PodValue.bytes)) := by
  have hbody := h.body
  have hlt := h.body_lt
  rw [NetPacket.getBodySize_eq, hbody] at hlt
  rw [List.reverse_cons, List.flatMap_append, List.flatMap_singleton] at hbody hlt
  simp only [List.length_append, PodValue.bytes, length_netBytes] at hlt
  exact NetPacket.shr_of_body v.value hbody (by omega)

/-- One push or pop is one of the abstract stack. -/
theorem represents_step {op : StackOp} (h : Represents start stack p)
    (hstep : PacketNext (p, stack) op (p', stack')) :
    StackNext stack op stack' ∧ Represents start stack' p' := by
  cases hstep with
  | push v hsize =>
    refine ⟨.push v stack, ?_⟩
    have hbody : p.body.getD [] ++ netBytes v.value =
        (v :: stack).reverse.flatMap PodValue.bytes := by
      rw [h.body, List.reverse_cons, List.flatMap_append, List.flatMap_singleton]
      rfl
    rw [NetPacket.getBodySize_eq, NetPacket.shl_body, Option.getD_some] at hsize
    rw [NetPacket.shl_eq, hbody]
    exact represents_withBody h.opcode (hbody ▸ hsize)
  | @pop _ _ v _ w hread =>
    rw [h.shr, Option.some_inj, Prod.mk.injEq] at hread
    obtain ⟨rfl, rfl⟩ := hread
    refine ⟨.pop v stack', represents_withBody h.opcode ?_⟩
    have hlt := h.body_lt
    rw [NetPacket.getBodySize_eq, h.body, List.reverse_cons, List.flatMap_append,
      List.length_append] at hlt
    omega

/-- Every interleaving of pushes and pops of a packet is one of the abstract stack. -/
theorem represents_run {ops : List StackOp} (h0 : Represents start [] start)
    (h : Run PacketNext (start, []) ops (p, stack)) :
    Run StackNext [] ops stack ∧ Represents start stack p := by
  generalize hs : (p, stack) = s at h
  induction h generalizing p stack with
  | nil =>
    cases hs
    exact ⟨.nil, h0⟩
  | @snoc ls op t t' hrun hstep ih =>
    subst hs
    obtain ⟨q, rest⟩ := t
    obtain ⟨habs, hrep⟩ := ih rfl
    obtain ⟨hnext, hrep'⟩ := represents_step hrep hstep
    exact ⟨habs.snoc hnext, hrep'⟩

end Stack

/-! ## What the builders write -/

/-- `packet >> height >> width >> y >> x >> id`. -/
def readPlayer (packet : NetPacket) : Option (UInt64 × Double × Double × UInt8 × UInt8) := do
  let (height, packet) ← packet.shr UInt8
  let (width, packet) ← packet.shr UInt8
  let (y, packet) ← packet.shr Double
  let (x, packet) ← packet.shr Double
  let (id, _) ← packet.shr UInt64
  some (id, x, y, width, height)

/-- `packet >> y >> x >> id`. -/
def readMove (packet : NetPacket) : Option (UInt64 × Double × Double) := do
  let (y, packet) ← packet.shr Double
  let (x, packet) ← packet.shr Double
  let (id, _) ← packet.shr UInt64
  some (id, x, y)

theorem readMove_eq (p : NetPacket) (hp : p.body = none) (id x y : UInt64) :
    readMove (p <<< id <<< x <<< y) = some (id, ⟨x⟩, ⟨y⟩) := by
  have hpacket : p <<< id <<< x <<< y =
      p.withBody ([] ++ netBytes id ++ netBytes (Double.mk x) ++ netBytes (Double.mk y)) := by
    rw [NetPacket.shl_eq, NetPacket.shl_eq, NetPacket.shl_eq, hp]
    rfl
  rw [hpacket]
  simp only [readMove, Option.bind_eq_bind, Option.bind_eq_some_iff]
  refine ⟨(_, _), NetPacket.shr_withBody p _ ?_, (_, _), NetPacket.shr_withBody p _ ?_,
    (_, _), NetPacket.shr_withBody p _ ?_, rfl⟩
  all_goals simp

theorem readPlayer_eq (p : NetPacket) (hp : p.body = none) (id x y : UInt64)
    (width height : UInt8) :
    readPlayer (p <<< id <<< x <<< y <<< width <<< height) =
      some (id, ⟨x⟩, ⟨y⟩, width, height) := by
  have hpacket : p <<< id <<< x <<< y <<< width <<< height =
      p.withBody ([] ++ netBytes id ++ netBytes (Double.mk x) ++ netBytes (Double.mk y) ++
        netBytes width ++ netBytes height) := by
    rw [NetPacket.shl_eq, NetPacket.shl_eq, NetPacket.shl_eq, NetPacket.shl_eq,
      NetPacket.shl_eq, hp]
    rfl
  rw [hpacket]
  simp only [readPlayer, Option.bind_eq_bind, Option.bind_eq_some_iff]
  refine ⟨(_, _), NetPacket.shr_withBody p _ ?_, (_, _), NetPacket.shr_withBody p _ ?_,
    (_, _), NetPacket.shr_withBody p _ ?_, (_, _), NetPacket.shr_withBody p _ ?_,
    (_, _), NetPacket.shr_withBody p _ ?_, rfl⟩
  all_goals simp

/-- Read in reverse order, the packets of the builders give their arguments back. -/
structure BuildersDecode : Prop where
  create : ∀ id x y width height,
    readPlayer (createPlayerPacket id x y width height) = some (id, ⟨x⟩, ⟨y⟩, width, height)
  add : ∀ id x y width height,
    readPlayer (addPlayerPacket id x y width height) = some (id, ⟨x⟩, ⟨y⟩, width, height)
  move : ∀ id x y, readMove (movePlayerPacket id x y) = some (id, ⟨x⟩, ⟨y⟩)
  remove : ∀ id, ((removePlayerPacket id).shr UInt64).map Prod.fst = some id

theorem buildersDecode : BuildersDecode where
  create _ _ _ _ _ := readPlayer_eq _ rfl _ _ _ _ _
  add _ _ _ _ _ := readPlayer_eq _ rfl _ _ _ _ _
  move _ _ _ := readMove_eq _ rfl _ _ _
  remove id := by
    rw [removePlayerPacket, NetPacket.shr_shl _ _ (by decide)]
    rfl

/-! ## Moving a packet -/

/-- What a target and a source hold after `p` has been moved from the one to the other. -/
structure Moved (p target source : NetPacket) : Prop where
  opcode : target.getHeadOpcode = p.getHeadOpcode
  size : target.getHeadSize = p.getHeadSize
  body : target.body = p.body
  source_size : source.getHeadSize = 0
  source_body : source.body = none

theorem getHeadSize_of_zero {p : NetPacket} (h : p.head.size = 0) : p.getHeadSize = 0 := by
  rw [NetPacket.getHeadSize, h]
  decide

theorem moved_move (p : NetPacket) : Moved p p.move.1 p.move.2 :=
  ⟨rfl, rfl, rfl, getHeadSize_of_zero rfl, rfl⟩

theorem moved_moveAssign (p target : NetPacket) :
    Moved p (target.moveAssign p).1 (target.moveAssign p).2 :=
  ⟨rfl, rfl, rfl, getHeadSize_of_zero rfl, rfl⟩

/-! ## The packet as a stack -/

/-- For every interleaving of pushes and pops on an empty packet, where each pop reads the
    type of the topmost value and the body stays below `2^32` bytes: the pops yield the
    values of an abstract stack, the packet represents it after every step, and the next pop
    will yield its topmost value. The builders' packets decode, and packets can be moved. -/
theorem packet_isStack {start p : NetPacket} {stack : List PodValue} {ops : List StackOp}
    (h0 : Represents start [] start) (hrun : Run PacketNext (start, []) ops (p, stack)) :
    Run StackNext [] ops stack ∧ Represents start stack p ∧
      (∀ v rest, stack = v :: rest → ∃ p', p.shr v.T = some (v.value, p')) ∧
      BuildersDecode ∧
      ∀ q target : NetPacket, Moved q q.move.1 q.move.2 ∧
        Moved q (target.moveAssign q).1 (target.moveAssign q).2 := by
  obtain ⟨habs, hrep⟩ := represents_run h0 hrun
  refine ⟨habs, hrep, ?_, buildersDecode, fun q target => ?_⟩
  · rintro v rest rfl
    exact ⟨_, hrep.shr⟩
  · exact ⟨moved_move q, moved_moveAssign q target⟩

/-- Two pushes and a pop. -/
theorem packet_isStack_jump :
    Run StackNext [] [.push ⟨(-7 : Int16)⟩, .push ⟨(9 : UInt64)⟩, .pop ⟨(9 : UInt64)⟩]
      [⟨(-7 : Int16)⟩] := by
  have hfirst : (NetPacket.ofOpcode .jump <<< (-7 : Int16)).getBodySize = 2 := by decide
  have hsecond : (NetPacket.ofOpcode .jump <<< (-7 : Int16) <<< (9 : UInt64)).getBodySize = 10 := by
    decide
  have hpop : (NetPacket.ofOpcode .jump <<< (-7 : Int16) <<< (9 : UInt64)).shr UInt64 =
      some (9, _) := NetPacket.shr_shl _ _ (by rw [hfirst, size_uint64]; norm_num)
  have hrun : Run PacketNext (NetPacket.ofOpcode .jump, []) _ _ :=
    ((Run.nil.snoc (.push ⟨(-7 : Int16)⟩ (by rw [hfirst]; norm_num))).snoc
      (.push ⟨(9 : UInt64)⟩ (by rw [hsecond]; norm_num))).snoc (.pop (v := ⟨(9 : UInt64)⟩) hpop)
  exact (packet_isStack ⟨rfl, by decide, rfl⟩ hrun).1

end EndlessPeak
