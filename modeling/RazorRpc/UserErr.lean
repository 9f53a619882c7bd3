import RazorRpc.EndToEnd

/-!
# The built-in error types (`stream/src/error.rs`)

`RpcErrCodec` is implemented for `()`, for the numbers from `i8` to `u32` and for
`String`. A number goes out as a `u32`, in the header; `decode` takes it back if it
is at most `MAX`, compared as a `u32`. A negative number is above that. A string goes
out with its length as an `i32`.

* `NumCast` — the casts that `impl_rpc_error_for_num!` is instantiated with;
* `ResTask` — what `client_task` generates for the result of a task;
* `deliver` — an error from the server's task to the client's;
* `ErrKind.Carried` — the values of each type that can be sent.

The result is `builtin_arrives_iff`.
-/

namespace RazorRpc

open Bytes Prog RespInput

/-! ## Numbers -/

/-- The casts between a type of numbers and `u32`, and its `MAX`. -/
structure NumCast (T : Type) where
  asU32 : T → UInt32
  ofU32 : UInt32 → T
  max : T
  ofU32_asU32 : ∀ e, ofU32 (asU32 e) = e

namespace NumCast

/-- `impl_rpc_error_for_num!`. -/
@[reducible] def errDecode {T : Type} (c : NumCast T) : RpcErrDecode T where
  encode e := .num (c.asU32 e)
  decode
    | .ok i => if i ≤ c.asU32 c.max then some (c.ofU32 i) else none
    | .error _ => none

/-- A number comes back if it is not above `MAX` as a `u32`. -/
theorem decode_asU32 {T : Type} (c : NumCast T) (e : T) :
    c.errDecode.decode (.ok (c.asU32 e)) = some e ↔ c.asU32 e ≤ c.asU32 c.max := by
  change (if c.asU32 e ≤ c.asU32 c.max then some (c.ofU32 (c.asU32 e)) else none) = some e ↔ _
  by_cases hle : c.asU32 e ≤ c.asU32 c.max
  · rw [if_pos hle, c.ofU32_asU32]
    exact iff_of_true rfl hle
  · rw [if_neg hle]
    exact iff_of_false nofun hle

def i8 : NumCast Int8 where
  asU32 e := e.toInt32.toUInt32
  ofU32 i := i.toInt32.toInt8
  max := Int8.maxValue
  ofU32_asU32 e := by simp

def u8 : NumCast UInt8 where
  asU32 := UInt8.toUInt32
  ofU32 := UInt32.toUInt8
  max := 255
  ofU32_asU32 e := by simp

def i16 : NumCast Int16 where
  asU32 e := e.toInt32.toUInt32
  ofU32 i := i.toInt32.toInt16
  max := Int16.maxValue
  ofU32_asU32 e := by simp

def u16 : NumCast UInt16 where
  asU32 := UInt16.toUInt32
  ofU32 := UInt32.toUInt16
  max := 65535
  ofU32_asU32 e := by simp

def i32 : NumCast Int32 where
  asU32 := Int32.toUInt32
  ofU32 := UInt32.toInt32
  max := Int32.maxValue
  ofU32_asU32 e := by simp

def u32 : NumCast UInt32 where
  asU32 e := e
  ofU32 i := i
  max := 4294967295
  ofU32_asU32 _ := rfl

theorem i8_le_iff (e : Int8) : i8.asU32 e ≤ i8.asU32 i8.max ↔ 0 ≤ e := by
  have hle : e.toInt32 ≤ Int8.maxValue.toInt32 := by
    rw [Int32.le_iff_toInt_le, Int8.toInt_toInt32]
    exact e.toInt_le
  have hzero : 0 ≤ e.toInt32 ↔ 0 ≤ e := by
    rw [Int32.le_iff_toInt_le, Int8.toInt_toInt32, Int8.le_iff_toInt_le]
    rfl
  exact (toUInt32_le_iff (by decide) hle).trans hzero

theorem i16_le_iff (e : Int16) : i16.asU32 e ≤ i16.asU32 i16.max ↔ 0 ≤ e := by
  have hle : e.toInt32 ≤ Int16.maxValue.toInt32 := by
    rw [Int32.le_iff_toInt_le, Int16.toInt_toInt32]
    exact e.toInt_le
  have hzero : 0 ≤ e.toInt32 ↔ 0 ≤ e := by
    rw [Int32.le_iff_toInt_le, Int16.toInt_toInt32, Int16.le_iff_toInt_le]
    rfl
  exact (toUInt32_le_iff (by decide) hle).trans hzero

theorem i32_le_iff (e : Int32) : i32.asU32 e ≤ i32.asU32 i32.max ↔ 0 ≤ e :=
  toUInt32_le_iff (by decide) (Int32.le_iff_toInt_le.mpr e.toInt_le)

theorem u8_le (e : UInt8) : u8.asU32 e ≤ u8.asU32 u8.max := by
  rw [UInt32.le_iff_toNat_le]
  exact Nat.le_of_lt_succ e.toNat_lt

theorem u16_le (e : UInt16) : u16.asU32 e ≤ u16.asU32 u16.max := by
  rw [UInt32.le_iff_toNat_le]
  exact Nat.le_of_lt_succ e.toNat_lt

theorem u32_le (e : UInt32) : u32.asU32 e ≤ u32.asU32 u32.max := by
  rw [UInt32.le_iff_toNat_le]
  exact Nat.le_of_lt_succ e.toNat_lt

end NumCast

instance : RpcErrDecode Int8 := NumCast.i8.errDecode
instance : RpcErrDecode UInt8 := NumCast.u8.errDecode
instance : RpcErrDecode Int16 := NumCast.i16.errDecode
instance : RpcErrDecode UInt16 := NumCast.u16.errDecode
instance : RpcErrDecode Int32 := NumCast.i32.errDecode
instance : RpcErrDecode UInt32 := NumCast.u32.errDecode

/-! ## The built-in types -/

inductive ErrKind : Type where
  | i8
  | u8
  | i16
  | u16
  | i32
  | u32
  | unit
  | string

namespace ErrKind

@[reducible] def Err : ErrKind → Type
  | i8 => Int8
  | u8 => UInt8
  | i16 => Int16
  | u16 => UInt16
  | i32 => Int32
  | u32 => UInt32
  | unit => Unit
  | string => String

instance (k : ErrKind) : RpcErrDecode k.Err :=
  match k with
  | i8 => inferInstanceAs (RpcErrDecode Int8)
  | u8 => inferInstanceAs (RpcErrDecode UInt8)
  | i16 => inferInstanceAs (RpcErrDecode Int16)
  | u16 => inferInstanceAs (RpcErrDecode UInt16)
  | i32 => inferInstanceAs (RpcErrDecode Int32)
  | u32 => inferInstanceAs (RpcErrDecode UInt32)
  | unit => inferInstanceAs (RpcErrDecode Unit)
  | string => inferInstanceAs (RpcErrDecode String)

/-- A number that is not negative, a string whose length is an `i32`. -/
def Carried : (k : ErrKind) → k.Err → Prop
  | i8, (e : Int8) => 0 ≤ e
  | i16, (e : Int16) => 0 ≤ e
  | i32, (e : Int32) => 0 ≤ e
  | string, (s : String) => (ofStr s).length ≤ i32Max
  | u8, _ | u16, _ | u32, _ | unit, _ => True

end ErrKind

/-! ## The tasks of the client -/

/-- A task with a field `res`, around the rest of it. -/
structure ResTask (E A : Type) where
  rest : A
  res : Option (Except (RpcError E) Unit)

namespace ResTask

variable {E A : Type} [RpcErrDecode E]

/-- The error that `set_custom_error` makes of what arrived. -/
def customError : EncodedErr → RpcError E
  | .rpc e => .rpc e
  | .num n => decoded (.ok n)
  | .static s => decoded (.error (ofStr s))
  | .buf b => decoded (.error b)
where
  decoded (buf : Except (List UInt8) UInt32) : RpcError E :=
    match RpcErrDecode.decode buf with
    | some e => .user e
    | none => .rpc .decode

instance [ClientTask A] : ClientTask (ResTask E A) where
  getAction t := ClientTask.getAction t.rest
  encodeReq t := ClientTask.encodeReq t.rest
  getReqBlob t := ClientTask.getReqBlob t.rest
  decodeResp t buf :=
    let r := ClientTask.decodeResp t.rest buf
    ({ t with rest := r.1 }, r.2)
  reserveRespBlob t size :=
    let r := ClientTask.reserveRespBlob t.rest size
    ({ t with rest := r.1 }, r.2)
  fillRespBlob t blob := { t with rest := ClientTask.fillRespBlob t.rest blob }
  setCustomError t e _ _ := { t with res := some (.error (customError e)) }
  setRpcError t e := { t with res := some (.error (.rpc e)) }
  setOk t := { t with res := some (.ok ()) }

end ResTask

/-- A task whose result says which error arrived. -/
structure Shows (E R : Type) {B : Type} [RpcErrDecode E] [ClientTask B]
    (result : B → Option (Except (RpcError E) R)) : Prop where
  rpc : ∀ b e, result (ClientTask.setRpcError b e) = some (.error (.rpc e))
  num : ∀ b n, result (ClientTask.setCustomError b (.num n) 0 0) =
    some (APIClientReq.decodeErr E R (.ok n))
  buf : ∀ b s, result (ClientTask.setCustomError b (.buf s) 0 0) =
    some (APIClientReq.decodeErr E R (.error s))

theorem shows_processRes (E R : Type) [RpcErrDecode E] [Serde R] [Inhabited R] :
    Shows E R fun r : APIClientReq => (r.processRes E R).2 :=
  ⟨fun _ _ => rfl, fun _ _ => rfl, fun _ _ => rfl⟩

theorem shows_res (E A : Type) [RpcErrDecode E] [ClientTask A] :
    Shows E Unit fun t : ResTask E A => t.res := by
  have hdecoded : ∀ b, (some (.error (ResTask.customError.decoded b)) :
      Option (Except (RpcError E) Unit)) = some (APIClientReq.decodeErr E Unit b) := by
    intro b
    rw [ResTask.customError.decoded, APIClientReq.decodeErr]
    cases RpcErrDecode.decode (E := E) b <;> rfl
  exact ⟨fun _ _ => rfl, fun _ n => hdecoded (.ok n), fun _ s => hdecoded (.error s)⟩

/-! ## From task to task -/

section Deliver

variable {T B : Type} [ServerTaskEncode T] [ClientTask B]

/-- The response `resp` is written, and read into `task` as an error; `rest` is what
comes after it. The task as `error_handle` gets it, unless the receiver fails. -/
def deliver (buf : HeadedBuf rpcRespHeaderLen) (resp : T) (rest : List UInt8)
    (timer : ClientTaskTimer B) (task : Task B) : Option (Task B) :=
  let frame := (RespHead.encode buf resp).1.bytes
  match RespHead.decodeHead (frame.take rpcRespHeaderLen) with
  | .error _ => none
  | .ok head =>
    match poll handler (TcpClient.recvError head task)
      ⟨frame.drop rpcRespHeaderLen ++ rest, timer, []⟩ with
    | (⟨_, _, [.errorHandled task]⟩, .ret true) => some task
    | _ => none

variable {resp : T} {seq : UInt64} {e : EncodedErr}
  (hout : ServerTaskEncode.encodeResp resp = ⟨seq, [], .error e⟩)
  (buf : HeadedBuf rpcRespHeaderLen) (rest : List UInt8) (timer : ClientTaskTimer B)
  (task : Task B)

include hout

/-- The header says which error it is, and its string follows. -/
theorem deliver_eq :
    deliver buf resp rest timer task =
      match poll handler (TcpClient.recvError (RespHead.ofError seq e) task)
        ⟨(RespHead.errString e).getD [] ++ rest, timer, []⟩ with
      | (⟨_, _, [.errorHandled task]⟩, .ret true) => some task
      | _ => none := by
  have hbytes : (RespHead.encode buf resp).1.bytes =
      (RespHead.ofError seq e).toBytes ++ (RespHead.errString e).getD [] := by
    have herr := RespHead.bytes_encodeError buf [] seq e
    rw [List.nil_append] at herr
    simp only [RespHead.encode, hout]
    exact herr
  have hdec : RespHead.decodeHead (RespHead.ofError seq e).toBytes =
      .ok (RespHead.ofError seq e) := by
    cases e with
    | num n => exact RespHead.decodeHead_new _ _ _ _
    | rpc _ | buf _ | static _ => exact RespHead.decodeHead_new _ _ _ _
  simp only [deliver, hbytes, List.take_left' (RespHead.length_toBytes _),
    List.drop_left' (RespHead.length_toBytes _), hdec]

end Deliver

/-- A length that is cast to `i32` does not become larger. -/
theorem toNatClampNeg_ofNat_le (n : ℕ) : (Int32.ofNat n).toNatClampNeg ≤ n := by
  by_cases hle : n ≤ i32Max
  · exact (toNatClampNeg_ofNat_i32 hle).le
  · have hlt := (Int32.ofNat n).toNatClampNeg_lt
    simp only [i32Max] at hle
    omega

/-- A string arrives as the bytes that its length, as an `i32`, says. -/
theorem deliver_buf {T B : Type} [ServerTaskEncode T] [ClientTask B] {resp : T} {seq : UInt64}
    {s : List UInt8} (hout : ServerTaskEncode.encodeResp resp = ⟨seq, [], .error (.buf s)⟩)
    (buf : HeadedBuf rpcRespHeaderLen) (rest : List UInt8) (timer : ClientTaskTimer B)
    (task : Task B) :
    deliver buf resp rest timer task =
      if Int32.ofNat s.length < 0 then none
      else some (TcpClient.setErrString task (s.take (Int32.ofNat s.length).toNatClampNeg)) := by
  have hflag : (RespHead.ofError seq (.buf s)).flag ≠ respFlagHasErrno :=
    (by decide : respFlagHasErrString ≠ respFlagHasErrno)
  have hflag' : (RespHead.ofError seq (.buf s)).flag = respFlagHasErrString := rfl
  have hblob : (RespHead.ofError seq (.buf s)).blobLen = Int32.ofNat s.length := rfl
  rw [deliver_eq hout, TcpClient.recvError, if_neg hflag, if_pos hflag', hblob]
  by_cases hneg : Int32.ofNat s.length < 0
  · rw [if_pos hneg, if_pos hneg]
    rfl
  · have hle := toNatClampNeg_ofNat_le s.length
    have hsplit : (RespHead.errString (.buf s)).getD [] ++ rest =
        s.take (Int32.ofNat s.length).toNatClampNeg ++
          (s.drop (Int32.ofNat s.length).toNatClampNeg ++ rest) := by
      rw [← List.append_assoc, List.take_append_drop]
      rfl
    rw [if_neg hneg, if_neg hneg, hsplit,
      poll_bind (poll_readExact (List.length_take_of_le hle) _ timer [])]
    rfl

section Arrives

variable {T B E R : Type} [ServerTaskEncode T] [ClientTask B] [RpcErrDecode E]
  {result : B → Option (Except (RpcError E) R)} (hshows : Shows E R result)
  {resp : T} {seq : UInt64} (buf : HeadedBuf rpcRespHeaderLen) (rest : List UInt8)
  (timer : ClientTaskTimer B) (task : Task B)

include hshows

/-- What the task shows of a string that was read. -/
theorem shows_setErrString (s : List UInt8) :
    result (TcpClient.setErrString task s).body = some (APIClientReq.decodeErr E R (.error s)) ∨
      ∃ x : RpcIntErr, s = x.asBytes ∧
        result (TcpClient.setErrString task s).body = some (.error (.rpc x)) := by
  by_cases hreserved : ∃ x : RpcIntErr, s = x.asBytes
  · obtain ⟨x, rfl⟩ := hreserved
    refine Or.inr ⟨x, rfl, ?_⟩
    rw [setErrString_asBytes]
    exact hshows.rpc _ _
  · rw [setErrString_unreserved task fun x hx => hreserved ⟨x, hx⟩]
    exact Or.inl (hshows.buf _ _)

omit hshows in
theorem decodeErr_eq_user {b : Except (List UInt8) UInt32} {e : E} :
    (some (APIClientReq.decodeErr E R b) : Option (Except (RpcError E) R)) =
      some (.error (.user e)) ↔ RpcErrDecode.decode b = some e := by
  rw [APIClientReq.decodeErr]
  cases hdecode : RpcErrDecode.decode (E := E) b with
  | none => constructor <;> rintro ⟨⟩
  | some e' =>
    rw [Option.some_inj, Option.some_inj, Except.error.injEq, RpcError.user.injEq]

/-- A number arrives in the header, and is decoded. -/
theorem num_arrives_iff {n : UInt32} {e : E}
    (hout : ServerTaskEncode.encodeResp resp = ⟨seq, [], .error (.num n)⟩) :
    (deliver buf resp rest timer task).bind (fun t => result t.body) = some (.error (.user e)) ↔
      RpcErrDecode.decode (.ok n) = some e := by
  have hnum : (deliver buf resp rest timer task).bind (fun t => result t.body) =
      some (APIClientReq.decodeErr E R (.ok n)) := by
    rw [deliver_eq hout]
    exact hshows.num _ _
  rw [hnum]
  exact decodeErr_eq_user

end Arrives

/-- A string arrives if its length is an `i32`. -/
theorem string_arrives_iff {T B R : Type} [ServerTaskEncode T] [ClientTask B]
    {result : B → Option (Except (RpcError String) R)} (hshows : Shows String R result)
    {resp : T} {seq : UInt64} {s : String} (hfree : RpcErrCodec.Unreserved s)
    (hout : ServerTaskEncode.encodeResp resp = ⟨seq, [], .error (.buf (ofStr s))⟩)
    (buf : HeadedBuf rpcRespHeaderLen) (rest : List UInt8) (timer : ClientTaskTimer B)
    (task : Task B) :
    (deliver buf resp rest timer task).bind (fun t => result t.body) = some (.error (.user s)) ↔
      (ofStr s).length ≤ i32Max := by
  rw [deliver_buf hout]
  by_cases hle : (ofStr s).length ≤ i32Max
  · refine iff_of_true ?_ hle
    rw [if_neg (ofNat_i32_nonneg hle), toNatClampNeg_ofNat_i32 hle, List.take_length,
      Option.bind_some]
    rcases shows_setErrString hshows task (ofStr s) with hbuf | ⟨x, hx, -⟩
    · rw [hbuf]
      exact decodeErr_eq_user.mpr (toStr?_ofStr s)
    · exact absurd (congrArg some hx) (hfree x)
  · refine iff_of_false ?_ hle
    split
    · rintro ⟨⟩
    · -- only a part of the string is read
      rw [Option.bind_some]
      rcases shows_setErrString hshows task
        ((ofStr s).take (Int32.ofNat (ofStr s).length).toNatClampNeg) with hbuf | ⟨x, -, hrpc⟩
      · rw [hbuf]
        intro huser
        have hstr := ofStr_eq_of_toStr? (decodeErr_eq_user.mp huser)
        have hlen := congrArg List.length hstr
        have hlt := (Int32.ofNat (ofStr s).length).toNatClampNeg_lt
        rw [List.length_take] at hlen
        simp only [i32Max] at hle
        omega
      · rw [hrpc]
        rintro ⟨⟩

/-- One kind of task. -/
theorem arrives_iff {T B R : Type} [ServerTaskEncode T] [ClientTask B] {k : ErrKind} {e : k.Err}
    {result : B → Option (Except (RpcError k.Err) R)} (hshows : Shows k.Err R result)
    {resp : T} {seq : UInt64} (hfree : RpcErrCodec.Unreserved e)
    (hout : ServerTaskEncode.encodeResp resp = ⟨seq, [], .error (RpcErrCodec.encode e)⟩)
    (buf : HeadedBuf rpcRespHeaderLen) (rest : List UInt8) (timer : ClientTaskTimer B)
    (task : Task B) :
    (deliver buf resp rest timer task).bind (fun t => result t.body) = some (.error (.user e)) ↔
      k.Carried e := by
  cases k with
  | i8 =>
    exact (num_arrives_iff hshows buf rest timer task hout).trans
      ((NumCast.i8.decode_asU32 e).trans (NumCast.i8_le_iff e))
  | i16 =>
    exact (num_arrives_iff hshows buf rest timer task hout).trans
      ((NumCast.i16.decode_asU32 e).trans (NumCast.i16_le_iff e))
  | i32 =>
    exact (num_arrives_iff hshows buf rest timer task hout).trans
      ((NumCast.i32.decode_asU32 e).trans (NumCast.i32_le_iff e))
  | u8 =>
    exact (num_arrives_iff hshows buf rest timer task hout).trans
      (iff_of_true ((NumCast.u8.decode_asU32 e).mpr (NumCast.u8_le e)) trivial)
  | u16 =>
    exact (num_arrives_iff hshows buf rest timer task hout).trans
      (iff_of_true ((NumCast.u16.decode_asU32 e).mpr (NumCast.u16_le e)) trivial)
  | u32 =>
    exact (num_arrives_iff hshows buf rest timer task hout).trans
      (iff_of_true ((NumCast.u32.decode_asU32 e).mpr (NumCast.u32_le e)) trivial)
  | unit =>
    exact (num_arrives_iff hshows buf rest timer task hout).trans (iff_of_true rfl trivial)
  | string => exact string_arrives_iff hshows hfree hout buf rest timer task

/-- **A built-in error arrives as itself exactly if it can be carried**: a number that
is not negative, `()`, or a string of at most `i32::MAX` bytes that is none of the
framework's own names. This is so for the requests of the API layer, read with
`process_res`, and for the tasks of `client_task`. -/
theorem builtin_arrives_iff {T A R : Type} [ServerTaskEncode T] [ClientTask A] [Serde R]
    [Inhabited R] {k : ErrKind} {e : k.Err} (hfree : RpcErrCodec.Unreserved e) {resp : T}
    {seq : UInt64}
    (hout : ServerTaskEncode.encodeResp resp = ⟨seq, [], .error (RpcErrCodec.encode e)⟩)
    (buf : HeadedBuf rpcRespHeaderLen) (rest : List UInt8)
    (timer : ClientTaskTimer APIClientReq) (req : Task APIClientReq)
    (timer' : ClientTaskTimer (ResTask k.Err A)) (task : Task (ResTask k.Err A)) :
    ((deliver buf resp rest timer req).bind (fun r => (r.body.processRes k.Err R).2) =
        some (.error (.user e)) ∧
      (deliver buf resp rest timer' task).bind (fun t => t.body.res) =
        some (.error (.user e))) ↔ k.Carried e := by
  have hapi := arrives_iff (shows_processRes k.Err R) hfree hout buf rest timer req
  have htask := arrives_iff (shows_res k.Err A) hfree hout buf rest timer' task
  rw [hapi, htask]
  exact and_self_iff

/-- The request `Calc.inc` and its response, an error. -/
def incFails (k : ErrKind) (e : k.Err) : APIServerResp := ⟨1, none, .error (RpcErrCodec.encode e)⟩

def incReq : Task APIClientReq := ⟨0, 1, .new "Calc.inc" [0xc0]⟩

def incTask (k : ErrKind) : Task (ResTask k.Err APIClientReq) :=
  ⟨0, 1, ⟨.new "Calc.inc" [0xc0], none⟩⟩

/-- The number 7 arrives. -/
theorem seven_arrives :
    (deliver (HeadedBuf.withCapacity rpcRespHeaderLen 492) (incFails .i8 7) [] (.new 20 128)
        incReq).bind (fun r => (r.body.processRes Int8 Unit).2) = some (.error (.user 7)) := by
  have hfree : RpcErrCodec.Unreserved (7 : ErrKind.i8.Err) := fun _ h => by cases h
  have hout : ServerTaskEncode.encodeResp (incFails .i8 7) =
      ⟨1, [], .error (RpcErrCodec.encode (7 : ErrKind.i8.Err))⟩ := rfl
  have hcarried : ErrKind.i8.Carried 7 := (by decide : (0 : Int8) ≤ 7)
  exact ((builtin_arrives_iff (R := Unit) hfree hout (HeadedBuf.withCapacity rpcRespHeaderLen 492)
    [] (.new 20 128) incReq (.new 20 128) (incTask .i8)).mpr hcarried).1

/-- The number -1 arrives as `Decode`. -/
theorem minus_one_lost :
    (deliver (HeadedBuf.withCapacity rpcRespHeaderLen 492) (incFails .i8 (-1)) [] (.new 20 128)
        incReq).bind (fun r => (r.body.processRes Int8 Unit).2) = some (.error (.rpc .decode)) := by
  decide +kernel

end RazorRpc
