import RazorRpc.Task

/-!
# The wire protocol (`stream/src/proto.rs`)

A frame is a fixed-length little-endian header followed by its body. The two
headers are plain structures with their byte layout (`toBytes`, `ofBytes`); the
encoders follow the source, which writes the body first, into a reused buffer,
and the header over the room kept in front of it afterwards.
-/

namespace RazorRpc

open Bytes

def pingAction : UInt32 := 0

def rpcMagic : UInt16 := 19749

/-- Set in `ReqHead::action` when it carries the length of a string. -/
def u32HighMask : UInt32 := 2147483648

def respFlagHasErrno : UInt8 := 1

def respFlagHasErrString : UInt8 := 2

def rpcVersion1 : UInt8 := 1

def u32Max : ℕ := 4294967295

def i32Max : ℕ := 2147483647

/-! ## Lengths in header fields -/

theorem i32Max_le_u32Max : i32Max ≤ u32Max := by decide

/-- Lengths up to the limit of a header field survive the trip through it. -/
theorem toNat_ofNat_u32 {n : ℕ} (h : n ≤ u32Max) : (UInt32.ofNat n).toNat = n :=
  UInt32.toNat_ofNat_of_lt' (by simp only [u32Max] at h; rw [UInt32.size]; omega)

theorem toNatClampNeg_ofNat_i32 {n : ℕ} (h : n ≤ i32Max) : (Int32.ofNat n).toNatClampNeg = n :=
  Int32.toNatClampNeg_ofNat_of_lt (by simp only [i32Max] at h; omega)

theorem ofNat_i32_pos {n : ℕ} (h : n ≤ i32Max) : 0 < Int32.ofNat n ↔ 0 < n := by
  rw [← Int32.toNatClampNeg_pos_iff, toNatClampNeg_ofNat_i32 h]

theorem ofNat_u32_pos {n : ℕ} (h : n ≤ u32Max) : 0 < UInt32.ofNat n ↔ 0 < n := by
  rw [UInt32.lt_iff_toNat_lt, toNat_ofNat_u32 h]
  rfl

theorem ofNat_i32_nonneg {n : ℕ} (h : n ≤ i32Max) : ¬ Int32.ofNat n < 0 := by
  have hlt : n < 2 ^ 31 := by
    simp only [i32Max] at h
    omega
  rw [Int32.lt_iff_toInt_lt, Int32.toInt_ofNat_of_lt hlt]
  exact Int.not_lt.mpr (Int.natCast_nonneg n)

/-- A length over the limit is negative in its field. -/
theorem ofNat_i32_neg {n : ℕ} (hlong : i32Max < n) (hmax : n ≤ u32Max) : Int32.ofNat n < 0 := by
  simp only [i32Max] at hlong
  simp only [u32Max] at hmax
  rw [Int32.lt_iff_toInt_lt, Int32.toInt_ofNat', Int.bmod_def]
  simp
  omega

/-! ## Request header -/

/-- Fixed-length header of a request, 32 bytes. -/
structure ReqHead where
  magic : UInt16
  ver : UInt8
  /-- encoder-decoder format -/
  format : UInt8
  /-- highest bit 0: the rest is the action number; highest bit 1: the rest is
  the length of the action string -/
  action : UInt32
  seq : UInt64
  clientId : UInt64
  msgLen : UInt32
  blobLen : UInt32
  deriving DecidableEq

def rpcReqHeaderLen : ℕ := 32

namespace ReqHead

/-- The packed layout. -/
def toBytes (h : ReqHead) : List UInt8 :=
  le 2 h.magic.toNat ++ le 1 h.ver.toNat ++ le 1 h.format.toNat ++ le 4 h.action.toNat ++
    le 8 h.seq.toNat ++ le 8 h.clientId.toNat ++ le 4 h.msgLen.toNat ++ le 4 h.blobLen.toNat

/-- `ref_from_bytes` on a header-sized slice. -/
def ofBytes (bs : List UInt8) : ReqHead where
  magic := UInt16.ofNat (fromLe (slice bs 0 2))
  ver := UInt8.ofNat (fromLe (slice bs 2 1))
  format := UInt8.ofNat (fromLe (slice bs 3 1))
  action := UInt32.ofNat (fromLe (slice bs 4 4))
  seq := UInt64.ofNat (fromLe (slice bs 8 8))
  clientId := UInt64.ofNat (fromLe (slice bs 16 8))
  msgLen := UInt32.ofNat (fromLe (slice bs 24 4))
  blobLen := UInt32.ofNat (fromLe (slice bs 28 4))

@[simp] theorem length_toBytes (h : ReqHead) : h.toBytes.length = rpcReqHeaderLen := by
  simp [toBytes, rpcReqHeaderLen]

/-- The layout is lossless. -/
@[simp] theorem ofBytes_toBytes (h : ReqHead) : ofBytes h.toBytes = h := by
  have hmagic := fromLe_le (w := 2) h.magic.toNat_lt
  have hver := fromLe_le (w := 1) h.ver.toNat_lt
  have hformat := fromLe_le (w := 1) h.format.toNat_lt
  have haction := fromLe_le (w := 4) h.action.toNat_lt
  have hseq := fromLe_le (w := 8) h.seq.toNat_lt
  have hclient := fromLe_le (w := 8) h.clientId.toNat_lt
  have hmsg := fromLe_le (w := 4) h.msgLen.toNat_lt
  have hblob := fromLe_le (w := 4) h.blobLen.toNat_lt
  simp [ofBytes, toBytes, slice, List.drop_append, hmagic, hver, hformat,
    haction, hseq, hclient, hmsg, hblob]

/-- The header the client writes. -/
def new (clientId : UInt64) (action : UInt32) (seq : UInt64) (msgLen : UInt32)
    (blobLen : Int32) : ReqHead :=
  { magic := rpcMagic, ver := rpcVersion1, format := 0, action, seq, clientId, msgLen,
    blobLen := blobLen.toUInt32 }

/-- Fill the room in front of the body, every field of it. -/
def writeHead (buf : HeadedBuf rpcReqHeaderLen) (clientId : UInt64) (action : UInt32)
    (seq : UInt64) (msgLen : UInt32) (blobLen : Int32) : HeadedBuf rpcReqHeaderLen :=
  let head := ReqHead.new clientId action seq msgLen blobLen
  buf.writeHead head.toBytes head.length_toBytes

def encodePing (buf : HeadedBuf rpcReqHeaderLen) (clientId seq : UInt64) :
    HeadedBuf rpcReqHeaderLen :=
  writeHead buf.reset clientId pingAction seq 0 0

/-- The `action` field and the bytes that stand between header and message. -/
def encodeAction : RpcAction → UInt32 × List UInt8
  | .num n => (n.toUInt32, [])
  | .str s => (UInt32.ofNat (ofStr s).length ||| u32HighMask, ofStr s)

/-- Write header, action and message into `buf`; return the blob, if any. -/
def encode {B : Type} [ClientTask B] (buf : HeadedBuf rpcReqHeaderLen) (clientId : UInt64)
    (task : Task B) : HeadedBuf rpcReqHeaderLen × Except Unit (Option (List UInt8)) :=
  let action := encodeAction (ClientTask.getAction task.body)
  let written := ClientTask.encodeReq task.body
  -- the body is written first: only then is the message length known
  let buf := (buf.reset.writeAll action.2).writeAll written.bytes
  match written.ret with
  | none => (buf, .error ())
  | some msgLen =>
    if u32Max < msgLen then (buf, .error ())
    else
      let blob := ClientTask.getReqBlob task.body
      let blobLen := (blob.getD []).length
      if i32Max < blobLen then (buf, .error ())
      else
        (writeHead buf clientId action.1 task.seq (UInt32.ofNat msgLen) (Int32.ofNat blobLen),
          .ok blob)

/-- The task's part in a successful encode: its message encodes, and message and
blob are within the limits of the header fields. -/
def Encodes {B : Type} [ClientTask B] (body : B) : Prop :=
  (∃ msgLen ∈ (ClientTask.encodeReq body).ret, msgLen ≤ u32Max) ∧
    ((ClientTask.getReqBlob body).getD []).length ≤ i32Max

instance {B : Type} [ClientTask B] (body : B) : Decidable (Encodes body) :=
  inferInstanceAs (Decidable (_ ∧ _))

/-- A task that encodes gets its header; whatever the buffer held before, it now
holds exactly the frame without its blob. -/
theorem encode_of_encodes {B : Type} [ClientTask B] (buf : HeadedBuf rpcReqHeaderLen)
    (clientId : UInt64) (task : Task B) {msgLen : ℕ}
    (hret : (ClientTask.encodeReq task.body).ret = some msgLen) (hmsg : msgLen ≤ u32Max)
    (hblob : ((ClientTask.getReqBlob task.body).getD []).length ≤ i32Max) :
    let action := encodeAction (ClientTask.getAction task.body)
    let blob := ClientTask.getReqBlob task.body
    (encode buf clientId task).2 = .ok blob ∧
      (encode buf clientId task).1.bytes =
        (ReqHead.new clientId action.1 task.seq (UInt32.ofNat msgLen)
            (Int32.ofNat (blob.getD []).length)).toBytes ++
          (action.2 ++ (ClientTask.encodeReq task.body).bytes) := by
  simp only [encode, hret, if_neg (Nat.not_lt_of_le hmsg), if_neg (Nat.not_lt_of_le hblob)]
  refine ⟨trivial, HeadedBuf.bytes_writeHead buf _ _ (length_toBytes _) ?_⟩
  rw [HeadedBuf.bytes_writeAll, HeadedBuf.bytes_writeAll, List.append_assoc]

/-- A task that does not encode is refused. -/
theorem encode_of_not_encodes {B : Type} [ClientTask B] (buf : HeadedBuf rpcReqHeaderLen)
    (clientId : UInt64) (task : Task B) (h : ¬ Encodes task.body) :
    (encode buf clientId task).2 = .error () := by
  simp only [encode]
  rcases hret : (ClientTask.encodeReq task.body).ret with _ | msgLen
  · rfl
  · by_cases hmsg : u32Max < msgLen
    · simp only [if_pos hmsg]
    · have hblob : i32Max < ((ClientTask.getReqBlob task.body).getD []).length := by
        by_contra hle
        exact h ⟨⟨msgLen, hret, Nat.le_of_not_lt hmsg⟩, Nat.le_of_not_lt hle⟩
      simp only [if_neg hmsg, if_pos hblob]

def decodeHead (headBuf : List UInt8) : Except RpcIntErr ReqHead :=
  let head := ofBytes headBuf
  if head.magic ≠ rpcMagic then .error .io
  else if head.ver ≠ rpcVersion1 then .error .version
  else .ok head

/-- `Ok(action number)` or `Err(action length)`. -/
def getAction (h : ReqHead) : Except Int32 Int32 :=
  if h.action &&& u32HighMask = 0 then .ok h.action.toInt32
  else .error (h.action ^^^ u32HighMask).toInt32

end ReqHead

/-! ## Response header -/

/-- Fixed-length header of a response, 20 bytes. -/
structure RespHead where
  magic : UInt16
  ver : UInt8
  /-- `respFlagHasErrno`: `msgLen` is an errno and `blobLen` is 0;
  `respFlagHasErrString`: `msgLen` is 0 and an error string of `blobLen` bytes
  follows -/
  flag : UInt8
  msgLen : UInt32
  seq : UInt64
  blobLen : Int32
  deriving DecidableEq

def rpcRespHeaderLen : ℕ := 20

namespace RespHead

/-- The packed layout. -/
def toBytes (h : RespHead) : List UInt8 :=
  le 2 h.magic.toNat ++ le 1 h.ver.toNat ++ le 1 h.flag.toNat ++ le 4 h.msgLen.toNat ++
    le 8 h.seq.toNat ++ le 4 h.blobLen.toUInt32.toNat

/-- `ref_from_bytes` on a header-sized slice. -/
def ofBytes (bs : List UInt8) : RespHead where
  magic := UInt16.ofNat (fromLe (slice bs 0 2))
  ver := UInt8.ofNat (fromLe (slice bs 2 1))
  flag := UInt8.ofNat (fromLe (slice bs 3 1))
  msgLen := UInt32.ofNat (fromLe (slice bs 4 4))
  seq := UInt64.ofNat (fromLe (slice bs 8 8))
  blobLen := (UInt32.ofNat (fromLe (slice bs 16 4))).toInt32

@[simp] theorem length_toBytes (h : RespHead) : h.toBytes.length = rpcRespHeaderLen := by
  simp [toBytes, rpcRespHeaderLen]

/-- The layout is lossless. -/
@[simp] theorem ofBytes_toBytes (h : RespHead) : ofBytes h.toBytes = h := by
  have hmagic := fromLe_le (w := 2) h.magic.toNat_lt
  have hver := fromLe_le (w := 1) h.ver.toNat_lt
  have hflag := fromLe_le (w := 1) h.flag.toNat_lt
  have hmsg := fromLe_le (w := 4) h.msgLen.toNat_lt
  have hseq := fromLe_le (w := 8) h.seq.toNat_lt
  have hblob := fromLe_le (w := 4) h.blobLen.toUInt32.toNat_lt
  simp [ofBytes, toBytes, slice, List.drop_append, hmagic, hver, hflag, hmsg, hseq, hblob]

/-- The header the server writes. -/
def new (flag : UInt8) (seq : UInt64) (msgLen : UInt32) (blobLen : Int32) : RespHead :=
  { magic := rpcMagic, ver := rpcVersion1, flag, msgLen, seq, blobLen }

/-- Fill the room in front of the body, every field of it. -/
def writeHead (buf : HeadedBuf rpcRespHeaderLen) (flag : UInt8) (seq : UInt64)
    (msgLen : UInt32) (blobLen : Int32) : HeadedBuf rpcRespHeaderLen :=
  let head := RespHead.new flag seq msgLen blobLen
  buf.writeHead head.toBytes head.length_toBytes

/-- The string an error is sent as; a number has none. -/
def errString : EncodedErr → Option (List UInt8)
  | .num _ => none
  | .rpc e => some e.asBytes
  | .buf b => some b
  | .static s => some (ofStr s)

/-- Write an error: its header over the front, its string *at the end* of
whatever the buffer holds. -/
def encodeError (buf : HeadedBuf rpcRespHeaderLen) (seq : UInt64) (e : EncodedErr) :
    HeadedBuf rpcRespHeaderLen :=
  match e with
  | .num n => writeHead buf respFlagHasErrno seq n 0
  | .rpc e => writeErr e.asBytes
  | .buf b => writeErr b
  | .static s => writeErr (ofStr s)
where
  /-- the `write_err!` macro -/
  writeErr (s : List UInt8) : HeadedBuf rpcRespHeaderLen :=
    (writeHead buf respFlagHasErrString seq 0 (Int32.ofNat s.length)).writeAll s

/-- Write header and message into `buf`; return the sequence number and the
blob to write after it. -/
def encode {T : Type} [ServerTaskEncode T] (buf : HeadedBuf rpcRespHeaderLen) (task : T) :
    HeadedBuf rpcRespHeaderLen × UInt64 × Option (List UInt8) :=
  let out := ServerTaskEncode.encodeResp task
  let seq := out.seq
  let buf := buf.reset.writeAll out.written
  match out.result with
  | .ok (msgLen, none) =>
    if u32Max < msgLen then (encodeError buf seq (.rpc .encode), seq, none)
    else (writeHead buf 0 seq (UInt32.ofNat msgLen) 0, seq, none)
  | .ok (msgLen, some blob) =>
    if u32Max < msgLen then (encodeError buf seq (.rpc .encode), seq, none)
    else if i32Max < blob.length then (encodeError buf seq (.rpc .encode), seq, none)
    else
      (writeHead buf 0 seq (UInt32.ofNat msgLen) (Int32.ofNat blob.length), seq, some blob)
  | .error e => (encodeError buf seq e, seq, none)

/-- The answer to a ping, or an error of the framework itself. -/
def encodeInternal (buf : HeadedBuf rpcRespHeaderLen) (seq : UInt64) (err : Option RpcIntErr) :
    HeadedBuf rpcRespHeaderLen × UInt64 :=
  match err with
  | some e => (encodeError buf.reset seq (.rpc e), seq)
  | none => (writeHead buf.reset 0 seq 0 0, seq)

def decodeHead (headBuf : List UInt8) : Except RpcIntErr RespHead :=
  let head := ofBytes headBuf
  if head.magic ≠ rpcMagic then .error .io
  else if head.ver ≠ rpcVersion1 then .error .version
  else .ok head

/-- A header the server wrote decodes. -/
theorem decodeHead_new (flag : UInt8) (seq : UInt64) (msgLen : UInt32) (blobLen : Int32) :
    decodeHead (RespHead.new flag seq msgLen blobLen).toBytes =
      .ok (RespHead.new flag seq msgLen blobLen) := by
  simp [decodeHead, RespHead.new]

end RespHead

end RazorRpc
