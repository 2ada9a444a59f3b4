import EndlessPeak.Lib.Run
import EndlessPeak.Net.PacketHandler

/-!
# Framing of the inbound byte stream

The specification is a one-shot parser of a whole byte string, `parse`: six bytes
of header in network order, then, if the header is acceptable, the body; the six
bytes of a header that is not acceptable are dropped alone. A frame whose last
byte is missing is not emitted.

The read loop of a session gets the same bytes in pieces. The proof keeps, next
to the packets pushed so far, the bytes the loop is still holding
(`Reader.residual`), and shows that the loop consumes bytes exactly as the parser
does, whatever bytes come later (`Accounts`).

* `framing_eq_parse`: for every stream and every sequence of chunk sizes, the
  pushed packets are those of `parse`.
* `framing_frames`: what that means for a client that sends whole frames, some of
  them with a header the server rejects.
-/

namespace EndlessPeak

open Lib

/-! ## Specification -/

/-- A frame as the client means it: opcode, announced size and payload. -/
structure Frame where
  opcode : UInt16
  size : UInt32
  body : List UInt8
  deriving DecidableEq, Repr

/-- The first two bytes in network order. -/
def headOpcode (bytes : List UInt8) : UInt16 := UInt16.ofNat (beNat (bytes.take 2))

/-- The next four bytes in network order. -/
def headSize (bytes : List UInt8) : UInt32 := UInt32.ofNat (beNat ((bytes.drop 2).take 4))

/-- The reference parser. -/
def parse (bytes : List UInt8) : List Frame :=
  if bytes.length < 6 then []
  else
    let opcode := headOpcode bytes
    let size := headSize bytes
    let rest := bytes.drop 6
    if opcode < 0x0FFF ∧ size < 128 then
      if size.toNat ≤ rest.length then
        { opcode, size, body := rest.take size.toNat } :: parse (rest.drop size.toNat)
      else []
    else parse rest
termination_by bytes.length
decreasing_by all_goals (simp; omega)

/-- The bytes of a frame on the wire. -/
def Frame.encode (f : Frame) : List UInt8 :=
  beBytes 2 f.opcode.toNat ++ beBytes 4 f.size.toNat ++ f.body

/-- A frame announces the size of its payload truthfully. -/
def Frame.WellFormed (f : Frame) : Prop := f.body.length = f.size.toNat

/-- What a pushed packet carries; `none` for a packet without a body vector. -/
def NetPacket.frame (p : NetPacket) : Option Frame :=
  p.body.map fun body => { opcode := p.getHeadOpcode, size := p.getHeadSize, body }

/-- The server accepts the header of `f`. -/
def Frame.Accepted (f : Frame) : Prop := f.opcode < 0x0FFF ∧ f.size < 128

instance (f : Frame) : Decidable f.Accepted := inferInstanceAs (Decidable (_ ∧ _))

/-- The byte stream of a client that sends the frames `fs`. -/
def encodeAll (fs : List Frame) : List UInt8 := (fs.map Frame.encode).flatten

/-- What the server makes of the frames `fs`: of a rejected frame only the header
    is dropped, and its payload is parsed as a stream of its own. -/
def receivedFrames : List Frame → List Frame
  | [] => []
  | f :: fs => if f.Accepted then f :: receivedFrames fs else parse (f.body ++ encodeAll fs)

/-- A payload that is a sequence of headers the server rejects. -/
inductive Inert : List UInt8 → Prop
  | nil : Inert []
  | cons {head rest : List UInt8} : head.length = 6 →
      ¬ (headOpcode head < 0x0FFF ∧ headSize head < 128) → Inert rest → Inert (head ++ rest)

/-! ## The parser on a header -/

theorem parse_of_length_lt {bytes : List UInt8} (h : bytes.length < 6) : parse bytes = [] := by
  rw [parse, if_pos h]

theorem headOpcode_headData (p : NetPacket) (rest : List UInt8) :
    headOpcode (p.head.data ++ rest) = p.getHeadOpcode := by
  have hlt : p.getHeadOpcode.toNat < 256 ^ 2 := p.getHeadOpcode.toNat_lt
  rw [headOpcode, NetPacket.head_data_eq, List.append_assoc, List.take_left' (by simp),
    beNat_beBytes, Nat.mod_eq_of_lt hlt, UInt16.ofNat_toNat]

theorem headSize_headData (p : NetPacket) (rest : List UInt8) :
    headSize (p.head.data ++ rest) = p.getHeadSize := by
  have hlt : p.getHeadSize.toNat < 256 ^ 4 := p.getHeadSize.toNat_lt
  rw [headSize, NetPacket.head_data_eq, List.append_assoc, List.drop_left' (by simp),
    List.take_left' (by simp), beNat_beBytes, Nat.mod_eq_of_lt hlt, UInt32.ofNat_toNat]

theorem parse_headData (p : NetPacket) (rest : List UInt8) :
    parse (p.head.data ++ rest) =
      if p.isValidHeader then
        if p.getHeadSize.toNat ≤ rest.length then
          { opcode := p.getHeadOpcode, size := p.getHeadSize,
            body := rest.take p.getHeadSize.toNat } :: parse (rest.drop p.getHeadSize.toNat)
        else []
      else parse rest := by
  have hlen : p.head.data.length = 6 := PacketHead.length_data _
  have hd : (p.head.data ++ rest).drop 6 = rest := by rw [← hlen, List.drop_left]
  have hv : (p.getHeadOpcode < 0x0FFF ∧ p.getHeadSize < 128) ↔ p.isValidHeader = true := by
    simp only [NetPacket.isValidHeader, Bool.and_eq_true, decide_eq_true_eq]
    rfl
  rw [parse, if_neg (by simp [hlen])]
  simp only [headOpcode_headData, headSize_headData, hd, hv]

/-! ## One read completion -/

/-- `res` accounts for the received `bytes`: the read loop's invariant holds, and
    whatever bytes come after them, the parser emits the pushed packets and then
    goes on with the bytes the loop still holds. -/
structure Accounts (id : UInt64) (bytes : List UInt8) (res : Reader × List ServerPacket) :
    Prop where
  inv : res.1.Inv
  ids : ∀ p ∈ res.2, p.id = id
  parse_eq : ∀ future, (parse (bytes ++ future)).map some =
    res.2.map (fun p => p.packet.frame) ++ (parse (res.1.residual ++ future)).map some

theorem Accounts.hold {id : UInt64} {r : Reader} {bytes : List UInt8} (hinv : r.Inv)
    (hres : r.residual = bytes) : Accounts id bytes (r, []) :=
  ⟨hinv, by simp, by simp [hres]⟩

theorem Accounts.pushPacket {id : UInt64} {h : PacketHandler} {body bytes : List UInt8}
    (hvalid : h.packet.isValidHeader = true) (hbody : h.packet.body = some body)
    (hlen : body.length = h.packet.getHeadSize.toNat)
    (hbytes : bytes = h.packet.head.data ++ body) :
    Accounts id bytes (Reader.pushPacket id h) := by
  refine ⟨⟨show 0 < sizeofPacketHead by decide, rfl, rfl⟩, by simp [Reader.pushPacket],
    fun future => ?_⟩
  have hres : (Reader.pushPacket id h).1.residual = [] := by
    simp [Reader.residual, Reader.pushPacket, PacketHandler.extractPacket]
  have hframe : (Reader.pushPacket id h).2.map (fun p => p.packet.frame) =
      [some { opcode := h.packet.getHeadOpcode, size := h.packet.getHeadSize, body }] := by
    simp [Reader.pushPacket, PacketHandler.extractPacket, NetPacket.move, NetPacket.frame, hbody]
  rw [hbytes, List.append_assoc, parse_headData, if_pos hvalid, if_pos (by simp; omega), hres,
    hframe, ← hlen, List.take_left, List.drop_left]
  rfl

theorem accounts_onReadHead (id : UInt64) {h : PacketHandler} (hh : Reader.HeadInv h)
    {chunk : List UInt8} (hlim : h.headAlreadyRead + chunk.length ≤ sizeofPacketHead) :
    Accounts id (h.packet.headData.take h.headAlreadyRead ++ chunk)
      (Reader.onReadHead id h chunk) := by
  obtain ⟨hlt, hzero, hbody⟩ := hh
  -- the handler after the socket has written the chunk
  generalize hdata : writeAt h.packet.headData h.headAlreadyRead chunk = data
  have hlen : data.length = sizeofPacketHead := by
    rw [← hdata, length_writeAt (by simpa [NetPacket.headData] using hlim)]
    simp [NetPacket.headData]
  have htake : data.take (h.headAlreadyRead + chunk.length) =
      h.packet.headData.take h.headAlreadyRead ++ chunk := by
    rw [← hdata, take_writeAt (by simp [NetPacket.headData]; omega)]
  obtain ⟨h', hh'⟩ : ∃ h', h' = h.receiveHead chunk := ⟨_, rfl⟩
  have hread : h'.headAlreadyRead = h.headAlreadyRead := by rw [hh']; rfl
  have hmem : h'.packet.head.data = data := by
    rw [hh']
    simp only [PacketHandler.receiveHead, hdata]
    exact PacketHead.data_ofData hlen
  have hzero' : h'.bodyAlreadyRead = 0 := by rw [hh']; exact hzero
  have hbody' : h'.packet.body = none := by rw [hh']; exact hbody
  rw [← htake, ← hread, Reader.onReadHead, ← hh']
  rw [← hread] at hlim
  rcases hlim.lt_or_eq with hmore | hfull
  · -- the header is still incomplete
    rw [PacketHandler.updateHeadSize_short hmore]
    exact .hold ⟨hmore, hzero', hbody'⟩ (by simp [Reader.residual, NetPacket.headData, hmem])
  rw [List.take_of_length_le (by omega), ← hmem]
  cases hvalid : h'.packet.isValidHeader with
  | false =>
    -- an invalid header is dropped
    rw [PacketHandler.updateHeadSize_invalid hfull hvalid]
    refine ⟨⟨by simp [sizeofPacketHead], hzero', hbody'⟩, by simp, fun future => ?_⟩
    rw [parse_headData, if_neg (by simp [hvalid])]
    simp [Reader.residual]
  | true =>
    rw [PacketHandler.updateHeadSize_valid hfull hvalid]
    have hresize : h'.packet.resizeBody h'.packet.getHeadSize.toNat =
        { h'.packet with body := some (List.replicate h'.packet.getHeadSize.toNat 0) } := by
      simp [NetPacket.resizeBody, hbody']
    have hsize := Reader.isValidHeader_size hvalid
    have hleft : sizeSub h'.packet.getHeadSize.toNat 0 = h'.packet.getHeadSize.toNat :=
      sizeSub_eq (Nat.zero_le _) (by omega)
    simp only [hresize, PacketHandler.bodySizeLeft, NetPacket.getBodySize, List.length_replicate,
      hzero', hleft, Bool.not_true, Bool.false_eq_true, if_false]
    by_cases hempty : h'.packet.getHeadSize.toNat = 0
    · -- a packet without payload is pushed at once
      rw [if_neg (by simp [hempty])]
      have hnil : (some (List.replicate h'.packet.getHeadSize.toNat 0) : Option (List UInt8)) =
          some [] := by simp [hempty]
      exact .pushPacket hvalid hnil hempty.symm (by simp)
    · rw [if_pos hempty]
      refine .hold ⟨_, rfl, hvalid, rfl, by simp; rfl, by simp; omega⟩ ?_
      simp [Reader.residual, NetPacket.headData]

theorem accounts_onReadBody (id : UInt64) {h : PacketHandler} {body : List UInt8}
    (hh : Reader.BodyInv h body) {chunk : List UInt8}
    (hlim : h.bodyAlreadyRead + chunk.length ≤ body.length) :
    Accounts id (h.packet.headData ++ body.take h.bodyAlreadyRead ++ chunk)
      (Reader.onReadBody id h chunk) := by
  obtain ⟨hread, hvalid, hbody, hsize, hlt⟩ := hh
  generalize hdata : writeAt body h.bodyAlreadyRead chunk = data
  have hlen : data.length = h.packet.getHeadSize.toNat := by
    rw [← hdata, length_writeAt hlim, hsize]
  have htake : data.take (h.bodyAlreadyRead + chunk.length) =
      body.take h.bodyAlreadyRead ++ chunk := by
    rw [← hdata, take_writeAt (by omega)]
  obtain ⟨h', hh'⟩ : ∃ h', h' = h.receiveBody chunk := ⟨_, rfl⟩
  have hread' : h'.headAlreadyRead = sizeofPacketHead := by rw [hh']; exact hread
  have hcount : h'.bodyAlreadyRead = h.bodyAlreadyRead := by rw [hh']; rfl
  have hhead : h'.packet.head = h.packet.head := by rw [hh']; rfl
  have hvalid' : h'.packet.isValidHeader = true := by rw [hh']; exact hvalid
  have hgetsize : h'.packet.getHeadSize = h.packet.getHeadSize := by rw [hh']; rfl
  have hbody' : h'.packet.body = some data := by
    rw [hh']
    simp [PacketHandler.receiveBody, hbody, hdata]
  rw [hsize, ← hgetsize, ← hcount] at hlim
  rw [List.append_assoc, ← htake, Reader.onReadBody, ← hh', ← hcount, NetPacket.headData, ← hhead]
  rw [← hgetsize] at hlen
  rcases hlim.lt_or_eq with hmore | hfull
  · -- payload bytes are still missing
    rw [PacketHandler.updateBodySize_short hmore]
    refine .hold ⟨data, hread', hvalid', hbody', hlen, by simp only; omega⟩ ?_
    simp [Reader.residual, NetPacket.headData, hbody']
  · rw [PacketHandler.updateBodySize_done hfull, List.take_of_length_le (by omega)]
    exact .pushPacket hvalid' hbody' hlen rfl

/-- The step lemma: a completion with at most the offered number of bytes. -/
theorem accounts_onRead (id : UInt64) {r : Reader} (hr : r.Inv) {chunk : List UInt8}
    (hlim : chunk.length ≤ r.limit) : Accounts id (r.residual ++ chunk) (r.onRead id chunk) := by
  obtain ⟨h, op⟩ := r
  cases op with
  | head =>
    have hinv : Reader.HeadInv h := hr
    have hlt := hinv.head_lt
    rw [Reader.limit_head rfl hinv] at hlim
    dsimp only at hlim
    exact accounts_onReadHead id hinv (by omega)
  | body =>
    obtain ⟨body, hinv⟩ : ∃ body, Reader.BodyInv h body := hr
    have hlt := hinv.body_lt
    rw [Reader.limit_body rfl hinv] at hlim
    dsimp only at hlim
    have hfits : h.bodyAlreadyRead + chunk.length ≤ body.length := by omega
    have hacc := accounts_onReadBody id hinv hfits
    simpa [Reader.residual, hinv.has_body, Reader.onRead] using hacc

/-! ## Whole streams -/

/-- What the loop is holding is an incomplete frame. -/
theorem parse_residual {r : Reader} (hr : r.Inv) : parse r.residual = [] := by
  obtain ⟨h, op⟩ := r
  cases op with
  | head =>
    have hinv : Reader.HeadInv h := hr
    have hlt := hinv.head_lt
    simp only [sizeofPacketHead] at hlt
    apply parse_of_length_lt
    simp only [Reader.residual, List.length_take]
    omega
  | body =>
    obtain ⟨body, hinv⟩ : ∃ body, Reader.BodyInv h body := hr
    have hlt := hinv.body_lt
    have hsize := hinv.length_body
    simp only [Reader.residual, hinv.has_body, Option.getD_some, NetPacket.headData]
    rw [parse_headData, if_pos hinv.valid, if_neg (by simp; omega)]

/-- If the pushed packets and the held bytes account for the bytes received, the
    packets are the frames of the parser. -/
theorem Accounts.pushed_eq {id : UInt64} {bytes : List UInt8} {r : Reader}
    {pushed : List ServerPacket} (h : Accounts id bytes (r, pushed)) :
    pushed.map (fun p => (p.id, p.packet.frame)) = (parse bytes).map fun f => (id, some f) := by
  obtain ⟨hinv, hids, hparse⟩ := h
  have hframes : pushed.map (fun p => p.packet.frame) = (parse bytes).map some := by
    have hend := hparse []
    rw [List.append_nil, List.append_nil, parse_residual hinv] at hend
    simpa using hend.symm
  calc pushed.map (fun p => (p.id, p.packet.frame))
      = (pushed.map fun p => p.packet.frame).map fun f => (id, f) := by
        rw [List.map_map]
        exact List.map_congr_left fun p hp => by simp [hids p hp]
    _ = (parse bytes).map fun f => (id, some f) := by
        rw [hframes, List.map_map]; rfl

/-- One read completion of session `id`: the socket delivers `chunk`, at most as
    many bytes as the loop asked for. The state is the receive side together with
    the packets pushed so far. -/
def readNext (id : UInt64) (s : Reader × List ServerPacket) (chunk : List UInt8)
    (s' : Reader × List ServerPacket) : Prop :=
  chunk.length ≤ s.1.limit ∧ s' = ((s.1.onRead id chunk).1, s.2 ++ (s.1.onRead id chunk).2)

/-- The run lemma: after any sequence of completions, the pushed packets and the
    held bytes account for every byte delivered. -/
theorem accounts_run {id : UInt64} {chunks : List (List UInt8)} {s : Reader × List ServerPacket}
    (h : Run (readNext id) ({}, []) chunks s) : Accounts id chunks.flatten s := by
  refine h.invariant_trace (I := fun ls s => Accounts id ls.flatten s) ?_ ?_
  · exact .hold Reader.inv_init Reader.residual_init
  · rintro ls ⟨r, pushed⟩ chunk _ ⟨hinv, hids, hparse⟩ ⟨hlim, rfl⟩
    obtain ⟨hinv', hids', hparse'⟩ := accounts_onRead id hinv hlim
    refine ⟨hinv', ?_, fun future => ?_⟩
    · simp only [List.mem_append]
      rintro p (hp | hp)
      · exact hids p hp
      · exact hids' p hp
    · have hnow := hparse (chunk ++ future)
      have hnext := hparse' future
      simp only [List.flatten_append, List.flatten_cons, List.flatten_nil, List.append_nil,
        List.append_assoc, List.map_append] at hnow hnext ⊢
      rw [hnow, hnext]

/-- For every byte stream and every sequence of chunk sizes within the limits the
    read loop asks for, the packets pushed to the server are, in order and each
    with its opcode, header size and body, the frames of the reference parser on
    the bytes delivered; an incomplete tail emits nothing. -/
theorem framing_eq_parse {id : UInt64} {chunks : List (List UInt8)} {r : Reader}
    {pushed : List ServerPacket} (h : Run (readNext id) ({}, []) chunks (r, pushed)) :
    pushed.map (fun p => (p.id, p.packet.frame)) =
      (parse chunks.flatten).map fun f => (id, some f) := by
  exact (accounts_run h).pushed_eq

/-- A header that arrives in three pieces, one of them empty. -/
theorem framing_eq_parse_split_header :
    ([{ packet := { head := PacketHead.ofData [0, 0x12, 0, 0, 0, 0], body := some [] }, id := 7 }] :
      List ServerPacket).map (fun p => (p.id, p.packet.frame)) =
      (parse [[0, 0x12], [], [0, 0, 0, 0]].flatten).map fun f => (7, some f) :=
  framing_eq_parse (r := { handler := { packet := { head := { opcode := 0x1200 } } } })
    (((Run.nil.snoc ⟨by decide, rfl⟩).snoc ⟨by decide, rfl⟩).snoc ⟨by decide, by decide⟩)

/-! ## A client that sends whole frames -/

theorem parse_encode {f : Frame} (hf : f.WellFormed) (rest : List UInt8) :
    parse (f.encode ++ rest) = if f.Accepted then f :: parse rest else parse (f.body ++ rest) := by
  -- the packet whose header the server reads
  obtain ⟨p, hp⟩ : ∃ p, p = (({} : NetPacket).setHeadOpcode f.opcode).setHeadSize f.size := ⟨_, rfl⟩
  have ho : p.getHeadOpcode = f.opcode := by simp [hp]
  have hs : p.getHeadSize = f.size := by simp [hp]
  have hbytes : f.encode ++ rest = p.head.data ++ (f.body ++ rest) := by
    rw [NetPacket.head_data_eq, ho, hs, Frame.encode, List.append_assoc, List.append_assoc]
  have hv : p.isValidHeader = true ↔ f.Accepted := by
    simp only [NetPacket.isValidHeader, Bool.and_eq_true, decide_eq_true_eq, ho, hs]
    rfl
  have hlen : f.body.length = f.size.toNat := hf
  rw [hbytes, parse_headData, ho, hs]
  by_cases hacc : f.Accepted
  · rw [if_pos (hv.mpr hacc), if_pos (by simp; omega), if_pos hacc, ← hlen, List.take_left,
      List.drop_left]
  · rw [if_neg (by simpa [hv] using hacc), if_neg hacc]

theorem parse_inert {payload : List UInt8} (h : Inert payload) (rest : List UInt8) :
    parse (payload ++ rest) = parse rest := by
  induction h with
  | nil => rfl
  | @cons head tail hlen hrej _ ih =>
    have ho : headOpcode (head ++ (tail ++ rest)) = headOpcode head := by
      rw [headOpcode, headOpcode, List.take_append_of_le_length (by omega)]
    have hs : headSize (head ++ (tail ++ rest)) = headSize head := by
      rw [headSize, headSize, List.drop_append_of_le_length (by omega),
        List.take_append_of_le_length (by simp; omega)]
    rw [List.append_assoc, parse, if_neg (by simp; omega)]
    simp only [ho, hs]
    rw [if_neg hrej, List.drop_left' hlen, ih]

theorem parse_encodeAll {fs : List Frame} (hwf : ∀ f ∈ fs, f.WellFormed) :
    parse (encodeAll fs) = receivedFrames fs := by
  induction fs with
  | nil => exact parse_of_length_lt (by simp [encodeAll])
  | cons f fs ih =>
    have htail := ih fun g hg => hwf g (List.mem_cons_of_mem f hg)
    have hcons : encodeAll (f :: fs) = f.encode ++ encodeAll fs := rfl
    rw [hcons, parse_encode (hwf f List.mem_cons_self), receivedFrames, htail]

theorem receivedFrames_of_inert {fs : List Frame} (hwf : ∀ f ∈ fs, f.WellFormed)
    (hinert : ∀ f ∈ fs, ¬ f.Accepted → Inert f.body) :
    receivedFrames fs = fs.filter (fun f => decide f.Accepted) := by
  induction fs with
  | nil => rfl
  | cons f fs ih =>
    have hwf' : ∀ g ∈ fs, g.WellFormed := fun g hg => hwf g (List.mem_cons_of_mem f hg)
    have htail := ih hwf' fun g hg => hinert g (List.mem_cons_of_mem f hg)
    by_cases hacc : f.Accepted
    · rw [receivedFrames, if_pos hacc, htail, List.filter_cons_of_pos (by simpa using hacc)]
    · rw [receivedFrames, if_neg hacc, parse_inert (hinert f List.mem_cons_self hacc),
        parse_encodeAll hwf', htail, List.filter_cons_of_neg (by simpa using hacc)]

/-- A client sends whole frames, in any chunking. The server drops the six header
    bytes of a frame it rejects and reads the payload of that frame as further
    headers (`receivedFrames`); when those payloads consist of rejected headers,
    in particular when they are empty, exactly the accepted frames are pushed. -/
theorem framing_frames {id : UInt64} {fs : List Frame} {chunks : List (List UInt8)} {r : Reader}
    {pushed : List ServerPacket} (hwf : ∀ f ∈ fs, f.WellFormed)
    (hbytes : chunks.flatten = encodeAll fs)
    (h : Run (readNext id) ({}, []) chunks (r, pushed)) :
    pushed.map (fun p => (p.id, p.packet.frame)) =
        (receivedFrames fs).map (fun f => (id, some f)) ∧
      ((∀ f ∈ fs, ¬ f.Accepted → Inert f.body) →
        pushed.map (fun p => (p.id, p.packet.frame)) =
          (fs.filter fun f => decide f.Accepted).map fun f => (id, some f)) := by
  have hpushed : pushed.map (fun p => (p.id, p.packet.frame)) =
      (receivedFrames fs).map fun f => (id, some f) := by
    rw [(accounts_run h).pushed_eq, hbytes, parse_encodeAll hwf]
  exact ⟨hpushed, fun hinert => by rw [hpushed, receivedFrames_of_inert hwf hinert]⟩

/-- A rejected frame whose payload is a rejected header, then a `MoveLeft`. -/
theorem framing_frames_rejected_first :
    ([{ packet := { head := PacketHead.ofData [0, 0x12, 0, 0, 0, 0], body := some [] }, id := 7 }] :
        List ServerPacket).map (fun p => (p.id, p.packet.frame)) =
      ([⟨0x0FFF, 6, [0x0F, 0xFF, 0, 0, 0, 0]⟩, ⟨0x12, 0, []⟩].filter fun f =>
        decide f.Accepted).map fun f : Frame => ((7 : UInt64), some f) :=
  (@framing_frames 7 [⟨0x0FFF, 6, [0x0F, 0xFF, 0, 0, 0, 0]⟩, ⟨0x12, 0, []⟩]
    [[0x0F, 0xFF, 0, 0, 0, 6], [0x0F, 0xFF, 0, 0, 0, 0], [0, 0x12, 0, 0, 0, 0]]
    { handler := { packet := { head := { opcode := 0x1200 } } } } _
    (by simp [Frame.WellFormed]) (by decide)
    (((Run.nil.snoc ⟨by decide, rfl⟩).snoc ⟨by decide, rfl⟩).snoc ⟨by decide, by decide⟩)).2
    (by
      intro f hf _
      rcases List.mem_cons.mp hf with rfl | hf
      · show Inert ([0x0F, 0xFF, 0, 0, 0, 0] ++ [])
        exact .cons rfl (by decide) .nil
      · rw [List.mem_singleton.mp hf]; exact .nil)

/-- The payload of one rejected frame is a `RemovePlayer` frame: the server pushes
    it although the only frame sent was rejected. -/
theorem rejected_payload_smuggles_removePlayer :
    ¬ ∀ (id : UInt64) (fs : List Frame) (chunks : List (List UInt8)) (r : Reader)
      (pushed : List ServerPacket), (∀ f ∈ fs, f.WellFormed) → chunks.flatten = encodeAll fs →
      Run (readNext id) ({}, []) chunks (r, pushed) →
      pushed.map (fun p => (p.id, p.packet.frame)) =
        (fs.filter fun f => decide f.Accepted).map fun f => (id, some f) := by
  intro h
  have hrun : Run (readNext 7) ({}, []) [[0x0F, 0xFF, 0, 0, 0, 6], [0, 0x17, 0, 0, 0, 0]]
      ({ handler := { packet := { head := { opcode := 0x1700 } } } },
        [{ packet := { head := { opcode := 0x1700 }, body := some [] }, id := 7 }]) :=
    (Run.nil.snoc ⟨by decide, rfl⟩).snoc ⟨by decide, by decide⟩
  have hfalse := h 7 [⟨0x0FFF, 6, [0, 0x17, 0, 0, 0, 0]⟩] _ _ _ (by simp [Frame.WellFormed])
    (by decide) hrun
  revert hfalse
  decide

end EndlessPeak
