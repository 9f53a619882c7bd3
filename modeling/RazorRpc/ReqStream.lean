import RazorRpc.TcpServer

/-!
# The request stream: what the client writes, the server reads

One connection carries the requests of a client back to back, with nothing in
between to resynchronise on. `ClientOp.write` is what one client operation puts
on the wire (`ReqHead::encode` or `encode_ping`, then `write_req`); a failed
encode writes nothing but leaves its traces in the reused buffer.

The round trip (`readReqs_writeOps`) is an induction over the operations: each
frame reads back exactly (`readReq_writeTask`, `readReq_writePing`), whatever
comes after it.
-/

namespace RazorRpc

open Bytes Input TcpServer

/-! ## The action field -/

theorem toBitVec_u32HighMask : u32HighMask.toBitVec = BitVec.twoPow 32 31 := by decide

/-- The mask does not meet a number below it. -/
theorem and_u32HighMask {x : UInt32} (h : x.toNat < 2 ^ 31) : x &&& u32HighMask = 0 := by
  have hbit : x.toBitVec.getLsbD 31 = false := Nat.testBit_lt_two_pow h
  apply UInt32.toBitVec_inj.mp
  rw [UInt32.toBitVec_and, toBitVec_u32HighMask, BitVec.and_twoPow, hbit]
  rfl

/-- A masked number is recognised. -/
theorem or_and_u32HighMask (x : UInt32) : (x ||| u32HighMask) &&& u32HighMask ≠ 0 := by
  intro h
  have hbv := congrArg UInt32.toBitVec h
  rw [UInt32.toBitVec_and, UInt32.toBitVec_or, toBitVec_u32HighMask, BitVec.and_twoPow] at hbv
  simp at hbv

/-- The mask comes off again. -/
theorem or_xor_u32HighMask {x : UInt32} (h : x.toNat < 2 ^ 31) :
    (x ||| u32HighMask) ^^^ u32HighMask = x := by
  have hbit : x.toBitVec.getLsbD 31 = false := Nat.testBit_lt_two_pow h
  apply UInt32.toBitVec_inj.mp
  rw [UInt32.toBitVec_xor, UInt32.toBitVec_or, toBitVec_u32HighMask]
  apply BitVec.eq_of_getLsbD_eq
  intro i hi
  by_cases h31 : i = 31
  · subst h31
    rw [BitVec.getLsbD_xor, BitVec.getLsbD_or, hbit]
    decide
  · simp [BitVec.getLsbD_twoPow, Ne.symm h31]

/-- The actions the header documents: a string shorter than `2 ^ 31` bytes or a
number whose highest bit is 0. -/
def RpcAction.InDomain : RpcAction → Prop
  | .str s => (ofStr s).length < 2 ^ 31
  | .num n => 0 ≤ n

/-- The action written by the encoder is the action read back, and the bytes of
its string are consumed. -/
theorem readAction_encodeAction {a : RpcAction} (ha : a.InDomain) {head : ReqHead}
    (hhead : head.action = (ReqHead.encodeAction a).1) (rest : List UInt8) :
    readAction head ((ReqHead.encodeAction a).2 ++ rest) = .ok (a, rest) := by
  cases a with
  | num n =>
    have hlt := (toNat_toUInt32_lt_iff n).mpr ha
    simp only [ReqHead.encodeAction] at hhead ⊢
    rw [readAction, ReqHead.getAction, hhead, if_pos (and_u32HighMask hlt)]
    rfl
  | str s =>
    have hlt : (UInt32.ofNat (ofStr s).length).toNat < 2 ^ 31 := by
      rw [UInt32.toNat_ofNat_of_lt' (Nat.lt_trans ha (by decide))]
      exact ha
    have hlen : (Int32.ofNat (ofStr s).length).toNatClampNeg = (ofStr s).length :=
      Int32.toNatClampNeg_ofNat_of_lt ha
    simp only [ReqHead.encodeAction] at hhead ⊢
    have hget : head.getAction = .error (Int32.ofNat (ofStr s).length) := by
      rw [ReqHead.getAction, hhead, if_neg (or_and_u32HighMask _), or_xor_u32HighMask hlt,
        UInt32.toInt32_ofNat']
    simp only [readAction, hget]
    rw [bind_ok (readExact_append hlen.symm rest), toStr?_ofStr]
    rfl

/-! ## One frame -/

/-- The message is read back. -/
theorem readMsg_append {head : ReqHead} {msg : List UInt8} (h : head.msgLen.toNat = msg.length)
    (rest : List UInt8) : readMsg head (msg ++ rest) = .ok (msg, rest) := by
  by_cases hpos : 0 < head.msgLen
  · rw [readMsg, if_pos hpos]
    exact readExact_append h.symm rest
  · have hnil : msg = [] := by
      rw [UInt32.lt_iff_toNat_lt] at hpos
      exact List.length_eq_zero_iff.mp (by simpa [h] using hpos)
    rw [readMsg, if_neg hpos, hnil]
    rfl

/-- The blob is read back; an empty one reads back as none. -/
theorem readBlob_append {alloc : Int32 → Bool} (halloc : ∀ n, 0 < n → alloc n = true)
    {head : ReqHead} {blob : List UInt8} (h : head.blobLen.toInt32 = Int32.ofNat blob.length)
    (hmax : blob.length ≤ i32Max) (rest : List UInt8) :
    readBlob alloc head (blob ++ rest) = .ok (if blob = [] then none else some blob, rest) := by
  have hlen : (Int32.ofNat blob.length).toNatClampNeg = blob.length :=
    Int32.toNatClampNeg_ofNat_of_lt (by simp only [i32Max] at hmax; omega)
  by_cases hnil : blob = []
  · have hzero : ¬ 0 < head.blobLen.toInt32 := by rw [h, hnil]; decide
    rw [readBlob, if_neg hzero, if_pos hnil, hnil]
    rfl
  · have hpos : 0 < head.blobLen.toInt32 := by
      rw [h, ← Int32.toNatClampNeg_pos_iff, hlen]
      exact List.length_pos_iff.mpr hnil
    rw [readBlob, if_pos hpos, if_pos (halloc _ hpos), if_neg hnil, h]
    change (some <$> readExact (Int32.ofNat blob.length).toNatClampNeg) (blob ++ rest) = _
    rw [map_eq_pure_bind, bind_ok (readExact_append hlen.symm rest)]
    rfl

section Frame

variable {alloc : Int32 → Bool} (halloc : ∀ n, 0 < n → alloc n = true)

include halloc

/-- A frame reads back as its parts, and nothing after it is touched. -/
theorem readReq_frame {a : RpcAction} (ha : a.InDomain) (clientId seq : UInt64)
    {msg blob : List UInt8} (hmsg : msg.length ≤ u32Max) (hblob : blob.length ≤ i32Max)
    (rest : List UInt8) :
    readReq alloc
        ((ReqHead.new clientId (ReqHead.encodeAction a).1 seq (UInt32.ofNat msg.length)
            (Int32.ofNat blob.length)).toBytes ++
          ((ReqHead.encodeAction a).2 ++ (msg ++ (blob ++ rest)))) =
      .ok (⟨seq, a, msg, if blob = [] then none else some blob⟩, rest) := by
  generalize hhead : ReqHead.new clientId (ReqHead.encodeAction a).1 seq
    (UInt32.ofNat msg.length) (Int32.ofNat blob.length) = head
  have hdec : ReqHead.decodeHead head.toBytes = .ok head := by
    simp [ReqHead.decodeHead, ← hhead, ReqHead.new]
  have haction : head.action = (ReqHead.encodeAction a).1 := by rw [← hhead]; rfl
  have hmsgLen : head.msgLen.toNat = msg.length := by
    rw [← hhead]
    exact UInt32.toNat_ofNat_of_lt' (by simp only [u32Max] at hmsg; rw [UInt32.size]; omega)
  have hblobLen : head.blobLen.toInt32 = Int32.ofNat blob.length := by rw [← hhead]; rfl
  have hseq : head.seq = seq := by rw [← hhead]; rfl
  rw [readReq, bind_ok (readExact_append head.length_toBytes _), hdec]
  change (readAction head >>= _) _ = _
  rw [bind_ok (readAction_encodeAction ha haction _), bind_ok (readMsg_append hmsgLen _),
    bind_ok (readBlob_append halloc hblobLen hblob _), hseq]
  rfl

end Frame

/-! ## The stream -/

/-- An operation of the sending side. -/
inductive ClientOp (B : Type) : Type where
  /-- send a task -/
  | task (t : Task B)
  /-- send a ping with this sequence number -/
  | ping (seq : UInt64)

namespace ClientOp

variable {B : Type} [ClientTask B]

/-- `TcpClient::write_req`: the encoded buffer, then the blob. -/
def writeReq (buf : List UInt8) (blob : Option (List UInt8)) : List UInt8 := buf ++ blob.getD []

/-- What an operation does: the encode buffer afterwards, and the bytes put on
the wire. A failed encode puts none there. -/
def write (clientId : UInt64) (buf : HeadedBuf rpcReqHeaderLen) :
    ClientOp B → HeadedBuf rpcReqHeaderLen × List UInt8
  | task t =>
    match ReqHead.encode buf clientId t with
    | (buf, .ok blob) => (buf, writeReq buf.bytes blob)
    | (buf, .error ()) => (buf, [])
  | ping seq =>
    let buf := ReqHead.encodePing buf clientId seq
    (buf, writeReq buf.bytes none)

/-- The bytes of a sequence of operations on one connection. -/
def writeOps (clientId : UInt64) : HeadedBuf rpcReqHeaderLen → List (ClientOp B) → List UInt8
  | _, [] => []
  | buf, op :: ops =>
    let written := op.write clientId buf
    written.2 ++ writeOps clientId written.1 ops

/-- The request an operation is meant to deliver: none if the task does not
encode; an empty blob is no blob; a ping is number 0 with nothing else. -/
def request? : ClientOp B → Option RpcSvrReq
  | task t =>
    let blob := (ClientTask.getReqBlob t.body).getD []
    if ReqHead.Encodes t.body then
      some ⟨t.seq, ClientTask.getAction t.body, (ClientTask.encodeReq t.body).bytes,
        if blob = [] then none else some blob⟩
    else none
  | ping seq => some ⟨seq, .num 0, [], none⟩

/-- An operation within the protocol's domain: a task that goes out has an action
the header can carry. -/
def InDomain : ClientOp B → Prop
  | task t => ReqHead.Encodes t.body → (ClientTask.getAction t.body).InDomain
  | ping _ => True

end ClientOp

section RoundTrip

open ClientOp

variable {B : Type} [ClientTask B] {alloc : Int32 → Bool}

/-- The contract of `encode_req`: the size returned is the number of bytes
appended. -/
def AppendsWhatItReturns (B : Type) [ClientTask B] : Prop :=
  ∀ (b : B) (msgLen : ℕ), (ClientTask.encodeReq b).ret = some msgLen →
    (ClientTask.encodeReq b).bytes.length = msgLen

/-- A ping reads back. -/
theorem readReq_writePing (halloc : ∀ n, 0 < n → alloc n = true) (clientId seq : UInt64)
    (buf : HeadedBuf rpcReqHeaderLen) (rest : List UInt8) :
    readReq alloc ((ClientOp.write (B := B) clientId buf (.ping seq)).2 ++ rest) =
      .ok (⟨seq, .num 0, [], none⟩, rest) := by
  have hbytes : (ReqHead.encodePing buf clientId seq).bytes =
      (ReqHead.new clientId 0 seq 0 0).toBytes := by
    have := HeadedBuf.bytes_writeHead buf buf.reset (ReqHead.new clientId 0 seq 0 0).toBytes
      (ReqHead.length_toBytes _) (List.append_nil _).symm
    rw [List.append_nil] at this
    exact this
  have hempty : ∀ n, ([] : List UInt8).length ≤ n := Nat.zero_le
  have hframe := readReq_frame halloc (a := .num 0) (Int32.le_refl 0) clientId seq
    (hempty u32Max) (hempty i32Max) rest
  have hzero : Int32.toUInt32 0 = 0 := rfl
  simp only [ClientOp.write, writeReq, hbytes]
  simpa [ReqHead.encodeAction, hzero] using hframe

/-- A task that encodes reads back. -/
theorem readReq_writeTask (halloc : ∀ n, 0 < n → alloc n = true)
    (hreq : AppendsWhatItReturns B) (clientId : UInt64) (buf : HeadedBuf rpcReqHeaderLen)
    {t : Task B} (henc : ReqHead.Encodes t.body) (hdom : (ClientTask.getAction t.body).InDomain)
    (rest : List UInt8) :
    ∃ req, request? (.task t) = some req ∧
      readReq alloc ((ClientOp.write clientId buf (.task t)).2 ++ rest) = .ok (req, rest) := by
  obtain ⟨⟨msgLen, hret, hmsg⟩, hblob⟩ := henc
  obtain ⟨hok, hbytes⟩ := ReqHead.encode_of_encodes buf clientId t hret hmsg hblob
  have hlen := hreq t.body msgLen hret
  refine ⟨_, if_pos ⟨⟨msgLen, hret, hmsg⟩, hblob⟩, ?_⟩
  have hwrite : (ClientOp.write clientId buf (.task t)).2 =
      writeReq (ReqHead.encode buf clientId t).1.bytes (ClientTask.getReqBlob t.body) := by
    rcases hr : ReqHead.encode buf clientId t with ⟨buf', r⟩
    rw [hr] at hok
    simp only at hok
    simp only [ClientOp.write, hr, hok]
  subst hlen
  rw [hwrite, hbytes, writeReq]
  simpa using readReq_frame halloc hdom clientId t.seq hmsg hblob rest

/-- A task that does not encode writes nothing. -/
theorem write_of_not_encodes (clientId : UInt64) (buf : HeadedBuf rpcReqHeaderLen) {t : Task B}
    (h : ¬ ReqHead.Encodes t.body) : (ClientOp.write clientId buf (.task t)).2 = [] := by
  have herr := ReqHead.encode_of_not_encodes buf clientId t h
  rcases hr : ReqHead.encode buf clientId t with ⟨buf', r⟩
  rw [hr] at herr
  simp only at herr
  simp only [ClientOp.write, hr, herr]

/-- **Pipelined round trip.** Whatever the encode buffer held before, reading the
concatenated frames yields the requests sent, in order, and consumes every
byte. -/
theorem readReqs_writeOps (halloc : ∀ n, 0 < n → alloc n = true)
    (hreq : AppendsWhatItReturns B) (clientId : UInt64) (buf : HeadedBuf rpcReqHeaderLen)
    (ops : List (ClientOp B)) (hdom : ∀ op ∈ ops, op.InDomain) :
    let sent := ops.filterMap request?
    readReqs alloc sent.length (writeOps clientId buf ops) = .ok (sent, []) := by
  induction ops generalizing buf with
  | nil => rfl
  | cons op ops ih =>
    have ih := ih (op.write clientId buf).1 fun op' h => hdom op' (List.mem_cons_of_mem _ h)
    have hop := hdom op List.mem_cons_self
    -- one frame, whatever follows it, then the induction hypothesis
    have hcons : ∀ req, request? op = some req →
        readReq alloc ((op.write clientId buf).2 ++ writeOps clientId (op.write clientId buf).1 ops)
          = .ok (req, writeOps clientId (op.write clientId buf).1 ops) →
        readReqs alloc ((op :: ops).filterMap request?).length (writeOps clientId buf (op :: ops)) =
          .ok ((op :: ops).filterMap request?, []) := by
      intro req hsome hread
      rw [List.filterMap_cons_some hsome, List.length_cons, readReqs, writeOps, bind_ok hread,
        bind_ok ih]
      rfl
    cases op with
    | ping seq => exact hcons _ rfl (readReq_writePing halloc clientId seq buf _)
    | task t =>
      by_cases henc : ReqHead.Encodes t.body
      · obtain ⟨req, hsome, hread⟩ :=
          readReq_writeTask halloc hreq clientId buf henc (hop henc)
            (writeOps clientId (ClientOp.write clientId buf (.task t)).1 ops)
        exact hcons req hsome hread
      · have hnone : request? (.task t) = none := if_neg henc
        rw [List.filterMap_cons_none hnone, writeOps, write_of_not_encodes clientId buf henc,
          List.nil_append]
        exact ih

/-- The requests of the API layer keep the contract of `encode_req`. -/
theorem appendsWhatItReturns_api : AppendsWhatItReturns APIClientReq := by
  intro r msgLen h
  rcases r with ⟨_ | msg, action, resp, res, ver, idx⟩
  · exact Option.some.inj h
  · exact Option.some.inj h

/-- A call, a ping and another call, read back. -/
theorem readReqs_writeOps_api :
    let ops : List (ClientOp APIClientReq) :=
      [.task ⟨0, 1, .new "calc.add" [146, 1, 2]⟩, .ping 2, .task ⟨1, 3, .new "calc.neg" [1]⟩]
    readReqs (fun _ => true) 3 (writeOps 9 (HeadedBuf.withCapacity rpcReqHeaderLen 992) ops) =
      .ok ([⟨1, .str "calc.add", [146, 1, 2], none⟩, ⟨2, .num 0, [], none⟩,
        ⟨3, .str "calc.neg", [1], none⟩], []) := by
  intro ops
  have hdom : ∀ op ∈ ops, op.InDomain := by
    refine List.forall_mem_cons.mpr ⟨fun _ => ?_, List.forall_mem_cons.mpr ⟨trivial,
      List.forall_mem_cons.mpr ⟨fun _ => ?_, List.forall_mem_nil _⟩⟩⟩
    · exact (by decide : (ofStr "calc.add").length < 2 ^ 31)
    · exact (by decide : (ofStr "calc.neg").length < 2 ^ 31)
  exact readReqs_writeOps (fun _ _ => rfl) appendsWhatItReturns_api 9 _ ops hdom

end RoundTrip

end RazorRpc
