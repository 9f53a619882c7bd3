import RazorRpc.ReqStream

/-!
# One field for three things

"If highest bit is 0, the rest will be i32 action_num. If highest is 1, the lower
bit will be i32 action_len" (`ReqHead::action`), and 0 is the ping. `encode` checks
the lengths of message and blob, but puts any number and any string length into the
field with a cast; `Reader::run` takes number 0 with no message for a ping, whoever
wrote it.

* `ReqHead.Carries` — the field says what the action is;
* `RpcSvrReq.IsPing` — the test of `Reader::run`;
* `ReqHead.ActionSound` — both, of whatever `encode` lets through.

The result is `actionSound_iff`.
-/

namespace RazorRpc

open Bytes Input TcpServer

/-! ## The field -/

/-- The mask meets every number from `2 ^ 31` on. -/
theorem and_u32HighMask_ne_zero {x : UInt32} (h : 2 ^ 31 ≤ x.toNat) : x &&& u32HighMask ≠ 0 := by
  intro hzero
  have hbit : x.toBitVec.getLsbD 31 = true :=
    Nat.testBit_of_two_pow_le_and_two_pow_add_one_gt h x.toNat_lt
  have hbv := congrArg UInt32.toBitVec hzero
  rw [UInt32.toBitVec_and, toBitVec_u32HighMask, BitVec.and_twoPow, hbit] at hbv
  exact absurd hbv (by decide)

namespace ReqHead

/-- `get_action` gives the number, or the length of the string. -/
def Carries (head : ReqHead) : RpcAction → Prop
  | .num n => head.getAction = .ok n
  | .str s => ∃ len : Int32, head.getAction = .error len ∧ len.toInt = (ofStr s).length

theorem carries_num_iff {head : ReqHead} {n : Int32}
    (h : head.action = (encodeAction (.num n)).1) :
    head.Carries (.num n) ↔ 0 ≤ n := by
  have haction : head.action = n.toUInt32 := h
  constructor
  · intro hcarries
    by_contra hneg
    have hge : 2 ^ 31 ≤ n.toUInt32.toNat :=
      Nat.le_of_not_lt fun hlt => hneg ((toNat_toUInt32_lt_iff n).mp hlt)
    rw [Carries, getAction, haction, if_neg (and_u32HighMask_ne_zero hge)] at hcarries
    cases hcarries
  · intro hle
    have hlt := (toNat_toUInt32_lt_iff n).mpr hle
    rw [Carries, getAction, haction, if_pos (and_u32HighMask hlt), Int32.toInt32_toUInt32]

theorem carries_str_iff {head : ReqHead} {s : String}
    (h : head.action = (encodeAction (.str s)).1) :
    head.Carries (.str s) ↔ (ofStr s).length < 2 ^ 31 := by
  have haction : head.action = UInt32.ofNat (ofStr s).length ||| u32HighMask := h
  have hget : head.getAction =
      .error ((UInt32.ofNat (ofStr s).length ||| u32HighMask) ^^^ u32HighMask).toInt32 := by
    rw [getAction, haction, if_neg (or_and_u32HighMask _)]
  constructor
  · rintro ⟨len, -, hlen⟩
    have hlt := len.toInt_lt
    rw [hlen] at hlt
    exact_mod_cast hlt
  · intro hlt
    refine ⟨_, hget, ?_⟩
    have hnat : (UInt32.ofNat (ofStr s).length).toNat < 2 ^ 31 := by
      rw [UInt32.toNat_ofNat_of_lt' (Nat.lt_trans hlt (by decide))]
      exact hlt
    rw [or_xor_u32HighMask hnat, UInt32.toInt32_ofNat']
    exact Int32.toInt_ofNat_of_lt hlt

/-- The field says what the action is for the documented actions only. -/
theorem carries_iff {head : ReqHead} {a : RpcAction} (h : head.action = (encodeAction a).1) :
    head.Carries a ↔ a.InDomain := by
  cases a with
  | num n => exact carries_num_iff h
  | str s => exact carries_str_iff h

end ReqHead

/-! ## The ping -/

/-- `Reader::run` takes the request for a ping. -/
def RpcSvrReq.IsPing (req : RpcSvrReq) : Prop := req.action = .num 0 ∧ req.msg = []

theorem Input.of_bind_ok {α β : Type} {m : Input α} {f : α → Input β} {bs rest : List UInt8}
    {b : β} (h : (m >>= f) bs = .ok (b, rest)) :
    ∃ a bs', m bs = .ok (a, bs') ∧ f a bs' = .ok (b, rest) := by
  change (m bs >>= fun p => f p.1 p.2) = .ok (b, rest) at h
  rcases hm : m bs with e | ⟨a, bs'⟩
  · rw [hm] at h
    cases h
  · rw [hm] at h
    exact ⟨a, bs', rfl, h⟩

theorem readAction_eq_num {head : ReqHead} {bs rest : List UInt8} {a : RpcAction} {n : Int32}
    (h : readAction head bs = .ok (a, rest)) : a = .num n ↔ head.getAction = .ok n := by
  rw [readAction] at h
  rcases hget : head.getAction with len | num
  · simp only [hget] at h
    obtain ⟨buf, bs', -, hstr⟩ := of_bind_ok h
    rcases hs : toStr? buf with _ | s
    · simp only [hs] at hstr
      cases hstr
    · simp only [hs] at hstr
      cases hstr
      constructor <;> rintro ⟨⟩
  · simp only [hget] at h
    cases h
    exact ⟨fun h => congrArg _ (RpcAction.num.inj h), fun h => congrArg _ (Except.ok.inj h)⟩

theorem readMsg_eq_nil {head : ReqHead} {bs rest msg : List UInt8}
    (h : readMsg head bs = .ok (msg, rest)) : msg = [] ↔ head.msgLen = 0 := by
  rw [readMsg] at h
  by_cases hpos : 0 < head.msgLen
  · rw [if_pos hpos, readExact] at h
    split at h
    · rename_i hle
      cases h
      have hlen : (bs.take head.msgLen.toNat).length = head.msgLen.toNat :=
        List.length_take_of_le hle
      rw [← List.length_eq_zero_iff, hlen, ← UInt32.toNat_inj]
      rfl
    · cases h
  · rw [if_neg hpos] at h
    cases h
    exact ⟨fun _ => UInt32.le_zero_iff.mp (UInt32.not_lt.mp hpos), fun _ => rfl⟩

/-- A request is a ping when its header says number 0 and no message. -/
theorem readReq_isPing {alloc : Int32 → Bool} {head : ReqHead}
    (hdec : ReqHead.decodeHead head.toBytes = .ok head) {bs rest : List UInt8} {req : RpcSvrReq}
    (h : readReq alloc (head.toBytes ++ bs) = .ok (req, rest)) :
    req.IsPing ↔ head.getAction = .ok 0 ∧ head.msgLen = 0 := by
  rw [readReq, bind_ok (readExact_append head.length_toBytes _), hdec] at h
  obtain ⟨a, bs₁, haction, h⟩ := of_bind_ok h
  obtain ⟨msg, bs₂, hmsg, h⟩ := of_bind_ok h
  obtain ⟨blob, bs₃, -, h⟩ := of_bind_ok h
  cases h
  exact and_congr (readAction_eq_num haction) (readMsg_eq_nil hmsg)

/-- Such a request is read as soon as its blob is there. -/
theorem readReq_ping {head : ReqHead} (hdec : ReqHead.decodeHead head.toBytes = .ok head)
    (hget : head.getAction = .ok 0) (hmsg : head.msgLen = 0) (bs : List UInt8)
    (hblob : head.blobLen.toInt32.toNatClampNeg ≤ bs.length) :
    ∃ req rest, readReq (fun _ => true) (head.toBytes ++ bs) = .ok (req, rest) := by
  have haction : readAction head bs = .ok (.num 0, bs) := by
    rw [readAction, hget]
    rfl
  have hread : readMsg head bs = .ok ([], bs) := by
    rw [readMsg, hmsg, if_neg (by decide)]
    rfl
  have hsome : ∃ blob rest, readBlob (fun _ => true) head bs = .ok (blob, rest) := by
    by_cases hpos : 0 < head.blobLen.toInt32
    · rw [readBlob, if_pos hpos, if_pos rfl]
      have hexact : readExact head.blobLen.toInt32.toNatClampNeg bs =
          .ok (bs.take head.blobLen.toInt32.toNatClampNeg,
            bs.drop head.blobLen.toInt32.toNatClampNeg) := if_pos hblob
      rw [map_eq_pure_bind, bind_ok hexact]
      exact ⟨_, _, rfl⟩
    · rw [readBlob, if_neg hpos]
      exact ⟨none, bs, rfl⟩
  obtain ⟨blob, rest, hsome⟩ := hsome
  rw [readReq, bind_ok (readExact_append head.length_toBytes _), hdec]
  change ∃ req rest, (readAction head >>= _) bs = .ok (req, rest)
  rw [bind_ok haction, bind_ok hread, bind_ok hsome]
  exact ⟨_, _, rfl⟩

/-! ## What is let through -/

namespace ReqHead

variable {B : Type} [ClientTask B]

/-- Whatever `encode` lets through, `get_action` of its header gives the action of
the task, and the server never takes it for a ping. -/
def ActionSound (buf : HeadedBuf rpcReqHeaderLen) (clientId : UInt64) (task : Task B) : Prop :=
  ∀ blob, (encode buf clientId task).2 = .ok blob →
    (ofBytes ((encode buf clientId task).1.bytes.take rpcReqHeaderLen)).Carries
        (ClientTask.getAction task.body) ∧
      ∀ (alloc : Int32 → Bool) (rest rest' : List UInt8) (req : RpcSvrReq),
        readReq alloc (ClientOp.writeReq (encode buf clientId task).1.bytes blob ++ rest) =
          .ok (req, rest') → ¬ req.IsPing

/-- The number 0, with no message. -/
def LooksLikePing (body : B) : Prop :=
  ClientTask.getAction body = .num 0 ∧ (ClientTask.encodeReq body).ret = some 0

theorem carries_zero {head : ReqHead} {a : RpcAction} (h : head.Carries a)
    (hget : head.getAction = .ok 0) : a = .num 0 := by
  cases a with
  | num n =>
    have hn : Except.ok n = Except.ok 0 := h.symm.trans hget
    exact congrArg RpcAction.num (Except.ok.inj hn)
  | str s =>
    obtain ⟨len, hlen, -⟩ := h
    rw [hget] at hlen
    cases hlen

/-- What goes out for a task that encodes: a header, and what follows it. -/
theorem exists_head (buf : HeadedBuf rpcReqHeaderLen) (clientId : UInt64) {task : Task B}
    (h : Encodes task.body) :
    ∃ (head : ReqHead) (tail : List UInt8),
      (encode buf clientId task).2 = .ok (ClientTask.getReqBlob task.body) ∧
      (∀ rest, ClientOp.writeReq (encode buf clientId task).1.bytes
        (ClientTask.getReqBlob task.body) ++ rest = head.toBytes ++ (tail ++ rest)) ∧
      ofBytes ((encode buf clientId task).1.bytes.take rpcReqHeaderLen) = head ∧
      decodeHead head.toBytes = .ok head ∧
      head.action = (encodeAction (ClientTask.getAction task.body)).1 ∧
      (head.msgLen = 0 ↔ (ClientTask.encodeReq task.body).ret = some 0) ∧
      head.blobLen.toInt32.toNatClampNeg ≤ tail.length := by
  obtain ⟨⟨msgLen, hret, hmsg⟩, hblob⟩ := h
  obtain ⟨hok, hbytes⟩ := encode_of_encodes buf clientId task hret hmsg hblob
  refine ⟨ReqHead.new clientId (encodeAction (ClientTask.getAction task.body)).1 task.seq
      (UInt32.ofNat msgLen) (Int32.ofNat ((ClientTask.getReqBlob task.body).getD []).length),
    (encodeAction (ClientTask.getAction task.body)).2 ++
      (ClientTask.encodeReq task.body).bytes ++ (ClientTask.getReqBlob task.body).getD [],
    hok, fun rest => ?_, ?_, ?_, rfl, ?_, ?_⟩
  · rw [ClientOp.writeReq, hbytes]
    simp only [List.append_assoc]
  · rw [hbytes, List.take_left' (length_toBytes _), ofBytes_toBytes]
  · simp [decodeHead, ReqHead.new]
  · have hnat : (UInt32.ofNat msgLen).toNat = msgLen :=
      UInt32.toNat_ofNat_of_lt' (Nat.lt_succ_of_le hmsg)
    rw [hret, Option.some_inj]
    constructor
    · intro hzero
      have hzero : UInt32.ofNat msgLen = 0 := hzero
      rw [← hnat, hzero]
      rfl
    · rintro rfl
      rfl
  · have hlen : (Int32.ofNat ((ClientTask.getReqBlob task.body).getD []).length).toNatClampNeg =
        ((ClientTask.getReqBlob task.body).getD []).length :=
      Int32.toNatClampNeg_ofNat_of_lt (Nat.lt_succ_of_le hblob)
    rw [List.length_append]
    exact (Nat.le_of_eq hlen).trans (Nat.le_add_left _ _)

/-- **Actions are unambiguous exactly where the field can hold them**: of the tasks
that `encode` lets through, those with a string shorter than `2 ^ 31` bytes or a
number that is not negative, unless it is number 0 with no message. -/
theorem actionSound_iff (buf : HeadedBuf rpcReqHeaderLen) (clientId : UInt64) (task : Task B) :
    ActionSound buf clientId task ↔
      (Encodes task.body →
        (ClientTask.getAction task.body).InDomain ∧ ¬ LooksLikePing task.body) := by
  by_cases henc : Encodes task.body
  · obtain ⟨head, tail, hok, hwire, htake, hdec, haction, hlen, hblob⟩ :=
      exists_head buf clientId henc
    have hcarries := carries_iff haction
    constructor
    · intro hsound _
      obtain ⟨hfield, hping⟩ := hsound _ hok
      rw [htake] at hfield
      refine ⟨hcarries.mp hfield, fun hlooks => ?_⟩
      have hget : head.getAction = .ok 0 := by
        rw [hlooks.1] at hfield
        exact hfield
      have hzero := hlen.mpr hlooks.2
      obtain ⟨req, rest, hread⟩ := readReq_ping hdec hget hzero (tail ++ [])
        (by rwa [List.append_nil])
      refine hping (fun _ => true) [] rest req ?_ ((readReq_isPing hdec hread).mpr ⟨hget, hzero⟩)
      rw [hwire]
      exact hread
    · intro hdom blob hok'
      rw [hok] at hok'
      cases hok'
      obtain ⟨hfield, hlooks⟩ := hdom henc
      rw [htake]
      refine ⟨hcarries.mpr hfield, fun alloc rest rest' req hread hping => hlooks ?_⟩
      rw [hwire] at hread
      obtain ⟨hget, hzero⟩ := (readReq_isPing hdec hread).mp hping
      exact ⟨carries_zero (hcarries.mpr hfield) hget, hlen.mp hzero⟩
  · have herr := encode_of_not_encodes buf clientId task henc
    refine ⟨fun _ h => absurd h henc, fun _ blob hok => ?_⟩
    rw [herr] at hok
    cases hok

/-- A task with its own number (`#[field(action)] action: i32`). -/
structure NumberedReq where
  action : Int32
  req : APIClientReq

instance : ClientTask NumberedReq where
  getAction t := .num t.action
  encodeReq t := ClientTask.encodeReq t.req
  getReqBlob t := ClientTask.getReqBlob t.req
  decodeResp t buf :=
    let r := ClientTask.decodeResp t.req buf
    ({ t with req := r.1 }, r.2)
  reserveRespBlob t size :=
    let r := ClientTask.reserveRespBlob t.req size
    ({ t with req := r.1 }, r.2)
  fillRespBlob t bs := { t with req := ClientTask.fillRespBlob t.req bs }
  setCustomError t e lastIndex confVer :=
    { t with req := ClientTask.setCustomError t.req e lastIndex confVer }
  setRpcError t e := { t with req := ClientTask.setRpcError t.req e }
  setOk t := { t with req := ClientTask.setOk t.req }

/-- The number -1 goes out as the length of a string of `2 ^ 31 - 1` bytes, and the
number 0 without a message as a ping. -/
theorem numbers_ambiguous :
    ¬ ActionSound (HeadedBuf.withCapacity rpcReqHeaderLen 992) 9
        (⟨0, 1, ⟨-1, .new "" [1]⟩⟩ : Task NumberedReq) ∧
      ¬ ActionSound (HeadedBuf.withCapacity rpcReqHeaderLen 992) 9
        (⟨0, 1, ⟨0, .new "" []⟩⟩ : Task NumberedReq) := by
  constructor
  · intro hsound
    have hfield : ReqHead.getAction _ = .ok (-1) := (hsound none (by decide +kernel)).1
    exact absurd hfield (by decide +kernel)
  · intro hsound
    refine (hsound none (by decide +kernel)).2 (fun _ => true) [] [] ⟨1, .num 0, [], none⟩ ?_
      ⟨rfl, rfl⟩
    decide +kernel

end ReqHead

end RazorRpc
