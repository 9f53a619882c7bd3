import RazorRpc.Proto

/-!
# Response frames: when what the server writes is well formed

`RespHead.encode` appends the message, *then* decides whether the response is
an error, and appends the error string at the end of whatever the buffer holds.
A frame is well formed (`RespFrame`) when its header and its length agree; there
is no resynchronisation on a connection, so a stray byte is fatal to every later
response.

The exact condition is `EncodesCleanly`: a response that goes out as an error
must not have appended anything before.
-/

namespace RazorRpc

open Bytes

/-- A response within the limits of the header fields. -/
def FitsHead (msgLen : ℕ) (blob : Option (List UInt8)) : Prop :=
  msgLen ≤ u32Max ∧ (blob.getD []).length ≤ i32Max

instance (msgLen : ℕ) (blob : Option (List UInt8)) : Decidable (FitsHead msgLen blob) :=
  inferInstanceAs (Decidable (_ ∧ _))

/-- The error a response has to report: its own, or `Encode` for a message or a
blob over the limit. -/
def EncodedResp.error? (out : EncodedResp) : Option EncodedErr :=
  match out.result with
  | .ok (msgLen, blob) => if FitsHead msgLen blob then none else some (.rpc .encode)
  | .error e => some e

/-- Header `head`, body `body` and the blob sent after them agree, flag by flag,
and carry what `out` has to say. -/
def RespFrame (out : EncodedResp) (head : RespHead) (body : List UInt8)
    (blob : Option (List UInt8)) : Prop :=
  head.seq = out.seq ∧
    (head.flag = 0 ∧ out.error? = none ∧ body = out.written ∧
        body.length = head.msgLen.toNat ∧ ((blob.getD []).length : ℤ) = head.blobLen.toInt ∨
      head.flag = respFlagHasErrno ∧ out.error? = some (.num head.msgLen) ∧ body = [] ∧
        head.blobLen = 0 ∧ blob = none ∨
      head.flag = respFlagHasErrString ∧ out.error?.bind RespHead.errString = some body ∧
        head.msgLen = 0 ∧ (body.length : ℤ) = head.blobLen.toInt ∧ blob = none)

/-- What is sent for `out` is a well-formed frame: the buffer holds a header
this version decodes, and the rest of it agrees with that header. -/
def WellFormedResp (out : EncodedResp) (buf : List UInt8) (blob : Option (List UInt8)) : Prop :=
  ∃ head, RespHead.decodeHead (buf.take rpcRespHeaderLen) = .ok head ∧
    RespFrame out head (buf.drop rpcRespHeaderLen) blob

/-- Nothing stands in the way of the frame: a response that goes out as `Ok`
appended as many bytes as it says, and one that goes out as an error appended
none and has a string the signed length field can carry. -/
def EncodesCleanly (out : EncodedResp) : Prop :=
  match out.result with
  | .ok (msgLen, blob) =>
    if FitsHead msgLen blob then out.written.length = msgLen else out.written = []
  | .error e => out.written = [] ∧ ((RespHead.errString e).getD []).length ≤ i32Max

namespace RespHead

/-- The header of an error. -/
def ofError (seq : UInt64) (e : EncodedErr) : RespHead :=
  match e with
  | .num n => RespHead.new respFlagHasErrno seq n 0
  | .rpc _ | .buf _ | .static _ =>
    RespHead.new respFlagHasErrString seq 0 (Int32.ofNat ((errString e).getD []).length)

variable (buf : HeadedBuf rpcRespHeaderLen) (written : List UInt8) (seq : UInt64)

/-- After `encode_resp` has appended `written`, the header goes in front of it. -/
theorem bytes_writeHead (flag : UInt8) (msgLen : UInt32) (blobLen : Int32) :
    (writeHead (buf.reset.writeAll written) flag seq msgLen blobLen).bytes =
      (RespHead.new flag seq msgLen blobLen).toBytes ++ written :=
  HeadedBuf.bytes_writeHead buf _ _ (length_toBytes _) (HeadedBuf.bytes_writeAll _ _)

/-- An error puts its string after whatever `encode_resp` has appended. -/
theorem bytes_encodeError (e : EncodedErr) :
    (encodeError (buf.reset.writeAll written) seq e).bytes =
      (ofError seq e).toBytes ++ (written ++ (errString e).getD []) := by
  cases e with
  | num n => simp [encodeError, ofError, errString, bytes_writeHead]
  | rpc e => simp [encodeError, encodeError.writeErr, ofError, errString, bytes_writeHead]
  | static s => simp [encodeError, encodeError.writeErr, ofError, errString, bytes_writeHead]
  | buf b => simp [encodeError, encodeError.writeErr, ofError, errString, bytes_writeHead]

end RespHead

/-- The signed length field carries a length exactly when it is at most
`i32::MAX`; longer ones wrap. -/
theorem toInt_ofNat_eq_iff (n : ℕ) : (n : ℤ) = (Int32.ofNat n).toInt ↔ n ≤ i32Max := by
  constructor
  · intro h
    have := (Int32.ofNat n).toInt_lt
    simp only [i32Max]
    omega
  · intro h
    exact (Int32.toInt_ofNat_of_lt (by simp only [i32Max] at h; omega)).symm

/-- The header in a buffer is the one that was written there. -/
theorem wellFormedResp_append (out : EncodedResp) (flag : UInt8) (seq : UInt64)
    (msgLen : UInt32) (blobLen : Int32) (body : List UInt8) (blob : Option (List UInt8)) :
    WellFormedResp out ((RespHead.new flag seq msgLen blobLen).toBytes ++ body) blob ↔
      RespFrame out (RespHead.new flag seq msgLen blobLen) body blob := by
  have hlen := (RespHead.new flag seq msgLen blobLen).length_toBytes
  simp [WellFormedResp, List.take_left' hlen, List.drop_left' hlen, RespHead.decodeHead_new]

/-- A number is the whole error: the body has to be empty. -/
theorem respFrame_errno {out : EncodedResp} {n : UInt32} (he : out.error? = some (.num n)) :
    RespFrame out (RespHead.new respFlagHasErrno out.seq n 0) out.written none ↔
      out.written = [] := by
  simp [RespFrame, RespHead.new, he, respFlagHasErrno, respFlagHasErrString]

/-- The string has to be the whole body, and the length field has to carry its
length. -/
theorem respFrame_errString {out : EncodedResp} {e : EncodedErr} {s : List UInt8}
    (he : out.error? = some e) (hs : RespHead.errString e = some s) :
    RespFrame out (RespHead.new respFlagHasErrString out.seq 0 (Int32.ofNat s.length))
        (out.written ++ s) none ↔
      out.written = [] ∧ s.length ≤ i32Max := by
  have hbody : s = out.written ++ s ↔ out.written = [] := by
    rw [List.self_eq_append_left]
  simp only [RespFrame, RespHead.new, he, hs, Option.bind_some, Option.some.injEq, hbody]
  constructor
  · rintro ⟨-, ⟨h, -⟩ | ⟨h, -⟩ | ⟨-, hw, -, hlen, -⟩⟩
    · cases h
    · cases h
    · rw [hw, List.nil_append, toInt_ofNat_eq_iff] at hlen
      exact ⟨hw, hlen⟩
  · rintro ⟨hw, hlen⟩
    refine ⟨trivial, .inr (.inr ⟨trivial, hw, trivial, ?_, trivial⟩)⟩
    rw [hw, List.nil_append, toInt_ofNat_eq_iff]
    exact hlen

/-- An error goes out well formed exactly when nothing was appended before it
and its string fits the length field. -/
theorem wellFormedResp_encodeError (buf : HeadedBuf rpcRespHeaderLen) {out : EncodedResp}
    {e : EncodedErr} (he : out.error? = some e) :
    WellFormedResp out
        (RespHead.encodeError (buf.reset.writeAll out.written) out.seq e).bytes none ↔
      out.written = [] ∧ ((RespHead.errString e).getD []).length ≤ i32Max := by
  rw [RespHead.bytes_encodeError]
  cases e with
  | num n =>
    rw [RespHead.ofError, wellFormedResp_append]
    simp [RespHead.errString, respFrame_errno he]
  | rpc e | static e | buf e =>
    rw [RespHead.ofError, wellFormedResp_append]
    exact respFrame_errString he rfl

/-- An `Ok` within the limits goes out well formed exactly when the length it
reports is the number of bytes it appended. -/
theorem wellFormedResp_ok (buf : HeadedBuf rpcRespHeaderLen) {out : EncodedResp}
    {msgLen : ℕ} {blob : Option (List UInt8)} (hres : out.result = .ok (msgLen, blob))
    (hfit : FitsHead msgLen blob) :
    WellFormedResp out
        (RespHead.writeHead (buf.reset.writeAll out.written) 0 out.seq (UInt32.ofNat msgLen)
          (Int32.ofNat (blob.getD []).length)).bytes blob ↔
      out.written.length = msgLen := by
  have herr : out.error? = none := by
    rw [EncodedResp.error?, hres]
    exact if_pos hfit
  have hmsg : (UInt32.ofNat msgLen).toNat = msgLen := by
    have := hfit.1
    simp only [u32Max] at this
    exact UInt32.toNat_ofNat_of_lt' (by rw [UInt32.size]; omega)
  have hblob := (toInt_ofNat_eq_iff _).mpr hfit.2
  rw [RespHead.bytes_writeHead, wellFormedResp_append]
  simp [RespFrame, RespHead.new, herr, hmsg, ← hblob, respFlagHasErrno, respFlagHasErrString]

/-- The two `Ok` arms of the encoder in one: within the limits the header is
written, over them the response is downgraded to `Encode`. -/
theorem RespHead.encode_ok {T : Type} [ServerTaskEncode T] (buf : HeadedBuf rpcRespHeaderLen)
    {task : T} {out : EncodedResp} {msgLen : ℕ} {blob : Option (List UInt8)}
    (hout : ServerTaskEncode.encodeResp task = out) (hres : out.result = .ok (msgLen, blob)) :
    RespHead.encode buf task =
      if FitsHead msgLen blob then
        (writeHead (buf.reset.writeAll out.written) 0 out.seq (UInt32.ofNat msgLen)
          (Int32.ofNat (blob.getD []).length), out.seq, blob)
      else (encodeError (buf.reset.writeAll out.written) out.seq (.rpc .encode), out.seq, none) := by
  cases blob with
  | none =>
    by_cases hmsg : u32Max < msgLen
    · have hfit : ¬ FitsHead msgLen none := fun h => absurd h.1 (Nat.not_le_of_lt hmsg)
      simp only [RespHead.encode, hout, hres, if_pos hmsg, if_neg hfit]
    · have hfit : FitsHead msgLen none := ⟨Nat.le_of_not_lt hmsg, Nat.zero_le _⟩
      simp only [RespHead.encode, hout, hres, if_neg hmsg, if_pos hfit]
      rfl
  | some b =>
    by_cases hmsg : u32Max < msgLen
    · have hfit : ¬ FitsHead msgLen (some b) := fun h => absurd h.1 (Nat.not_le_of_lt hmsg)
      simp only [RespHead.encode, hout, hres, if_pos hmsg, if_neg hfit]
    · by_cases hblob : i32Max < b.length
      · have hfit : ¬ FitsHead msgLen (some b) := fun h => absurd h.2 (Nat.not_le_of_lt hblob)
        simp only [RespHead.encode, hout, hres, if_neg hmsg, if_pos hblob, if_neg hfit]
      · have hfit : FitsHead msgLen (some b) :=
          ⟨Nat.le_of_not_lt hmsg, Nat.le_of_not_lt hblob⟩
        simp only [RespHead.encode, hout, hres, if_neg hmsg, if_neg hblob, if_pos hfit]
        rfl

/-- **Response frames.** For every task and whatever the reused buffer held, the
frame that goes out is well formed exactly when `encode_resp` encodes cleanly. -/
theorem wellFormedResp_encode_iff {T : Type} [ServerTaskEncode T]
    (buf : HeadedBuf rpcRespHeaderLen) (task : T) :
    WellFormedResp (ServerTaskEncode.encodeResp task) (RespHead.encode buf task).1.bytes
        (RespHead.encode buf task).2.2 ↔
      EncodesCleanly (ServerTaskEncode.encodeResp task) := by
  generalize hout : ServerTaskEncode.encodeResp task = out
  rcases hres : out.result with e | ⟨msgLen, blob⟩
  · simp only [RespHead.encode, EncodesCleanly, hout, hres]
    exact wellFormedResp_encodeError buf (by rw [EncodedResp.error?, hres])
  · rw [RespHead.encode_ok buf hout hres]
    simp only [EncodesCleanly, hres]
    by_cases hfit : FitsHead msgLen blob
    · simp only [if_pos hfit]
      exact wellFormedResp_ok buf hres hfit
    · -- over a limit: the message already stands where the error string goes
      have herr : out.error? = some (.rpc .encode) := by
        rw [EncodedResp.error?, hres]
        exact if_neg hfit
      simp only [if_neg hfit]
      rw [wellFormedResp_encodeError buf herr]
      exact and_iff_left (by decide)

/-! ## A response that does not encode cleanly -/

/-- A message for which the MessagePack serializer fails after one byte (a
two-element array whose first element refuses to serialize). -/
structure HalfSerialized where

instance : Codec HalfSerialized := ⟨MsgpCodec.encodeInto fun _ => ([0x92], false)⟩

/-- The byte that was written before the serializer failed stays between the
header and the error string. -/
theorem half_serialized_malformed :
    let task : ServerTaskVariant HalfSerialized Unit := ⟨7, ⟨⟩, none, .ok ()⟩
    let sent := RespHead.encode (HeadedBuf.withCapacity rpcRespHeaderLen 492) task
    ¬ WellFormedResp (ServerTaskEncode.encodeResp task) sent.1.bytes sent.2.2 := by
  intro task sent h
  have hclean := (wellFormedResp_encodeError (e := .rpc .encode)
    (HeadedBuf.withCapacity rpcRespHeaderLen 492) rfl).mp h
  exact absurd hclean.1 (by decide)

end RazorRpc
