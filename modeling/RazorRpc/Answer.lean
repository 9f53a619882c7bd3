import RazorRpc.ConnProto
import RazorRpc.RespStream

/-!
# Reading a response, read by read

What the receive future does between two answers does not depend on who gives
them. The protocol `answering` follows it through a response: the header that was
read, the task taken for it, and the bytes read since. A task is completed as any
response completes it that begins with these bytes; a turn reads no further than
the response goes, and ends with an error only if there is a reason to leave.

Answers that a regular server and a registry in order do not give (a read that
fails in the middle of a response, a header no response has) excuse the turn from
everything.
-/

namespace RazorRpc

open Prog ClientStream

/-! ## Headers -/

/-- The header of a response. -/
def Resp.head (r : Resp) : RespHead := r.body.head r.seq

namespace RespHead

/-- The number of bytes a header announces. -/
def bodyLen (head : RespHead) : ℕ :=
  if head.flag = 0 then head.msgLen.toNat + head.blobLen.toNatClampNeg
  else if head.flag = respFlagHasErrString then head.blobLen.toNatClampNeg
  else 0

/-- A header that a response has. -/
def Regular (head : RespHead) : Prop :=
  (head.magic = rpcMagic ∧ head.ver = rpcVersion1) ∧
    (head.flag = 0 ∧ 0 ≤ head.blobLen ∧
        head.msgLen.toNat + head.blobLen.toNatClampNeg ≤ i32Max ∨
      head.flag = respFlagHasErrno ∧ head.blobLen = 0 ∨
      head.flag = respFlagHasErrString ∧ head.msgLen = 0 ∧ 0 ≤ head.blobLen)

instance (head : RespHead) : Decidable head.Regular := inferInstanceAs (Decidable (_ ∧ _))

/-- Any bytes of the length announced are the payload of a response. -/
theorem Regular.exists_resp {head : RespHead} (h : head.Regular) {payload : List UInt8}
    (hlen : payload.length = head.bodyLen) :
    ∃ r : Resp, r.head = head ∧ r.body.payload = payload := by
  obtain ⟨magic, ver, flag, msgLen, seq, blobLen⟩ := head
  obtain ⟨⟨rfl, rfl⟩, ⟨rfl, hpos, hle⟩ | ⟨rfl, rfl⟩ | ⟨rfl, rfl, hpos⟩⟩ := h
  · change payload.length = msgLen.toNat + blobLen.toNatClampNeg at hlen
    have hsplit : payload.take msgLen.toNat ++ payload.drop msgLen.toNat = payload :=
      List.take_append_drop _ _
    have hmsg : (payload.take msgLen.toNat).length = msgLen.toNat := by
      rw [List.length_take, hlen]
      omega
    have hblob : (payload.drop msgLen.toNat).length = blobLen.toNatClampNeg := by
      rw [List.length_drop, hlen]
      omega
    refine ⟨⟨seq, .ok (payload.take msgLen.toNat) (payload.drop msgLen.toNat), ?_⟩, ?_, hsplit⟩
    · rw [RespBody.payload, hsplit, hlen]
      exact hle
    · simp only [Resp.head, RespBody.head, RespHead.new, hmsg, hblob,
        Int32.ofNat_toNatClampNeg _ hpos, UInt32.ofNat_toNat]
  · exact ⟨⟨seq, .errno msgLen, Nat.zero_le _⟩, rfl, (List.length_eq_zero_iff.mp hlen).symm⟩
  · change payload.length = blobLen.toNatClampNeg at hlen
    refine ⟨⟨seq, .errString payload, ?_⟩, ?_, rfl⟩
    · have := blobLen.toNatClampNeg_lt
      simp only [RespBody.payload, hlen, i32Max]
      omega
    · simp only [Resp.head, RespBody.head, RespHead.new, hlen, Int32.ofNat_toNatClampNeg _ hpos]

end RespHead

namespace Resp

theorem bodyLen_head (r : Resp) : r.head.bodyLen = r.body.payload.length := by
  obtain ⟨seq, body, hfits⟩ := r
  cases body with
  | errno n => rfl
  | errString s => exact toNatClampNeg_ofNat_i32 hfits
  | ok msg blob =>
    have hle : msg.length + blob.length ≤ i32Max := List.length_append ▸ hfits
    change (UInt32.ofNat msg.length).toNat + (Int32.ofNat blob.length).toNatClampNeg = _
    rw [(toNat_lengths hfits).1, toNatClampNeg_ofNat_i32 (by omega)]
    exact List.length_append.symm

theorem head_seq (r : Resp) : r.head.seq = r.seq := by
  rw [head]
  cases r.body <;> rfl

theorem decodeHead_toBytes (r : Resp) : RespHead.decodeHead r.head.toBytes = .ok r.head := by
  rw [head]
  cases r.body <;> exact RespHead.decodeHead_new _ _ _ _

/-- A header tells the kind of its response, and the lengths. -/
theorem body_errno {r : Resp} (h : r.head.flag = respFlagHasErrno) :
    r.body = .errno r.head.msgLen := by
  obtain ⟨seq, body, hfits⟩ := r
  cases body with
  | errno n => rfl
  | errString s => exact absurd h (by decide : respFlagHasErrString ≠ respFlagHasErrno)
  | ok msg blob => exact absurd h (by decide : (0 : UInt8) ≠ respFlagHasErrno)

theorem body_errString {r : Resp} (h : r.head.flag = respFlagHasErrString) :
    ∃ s, r.body = .errString s ∧ s.length = r.head.blobLen.toNatClampNeg := by
  obtain ⟨seq, body, hfits⟩ := r
  cases body with
  | errno n => exact absurd h (by decide : respFlagHasErrno ≠ respFlagHasErrString)
  | errString s => exact ⟨s, rfl, (toNatClampNeg_ofNat_i32 hfits).symm⟩
  | ok msg blob => exact absurd h (by decide : (0 : UInt8) ≠ respFlagHasErrString)

theorem body_ok {r : Resp} (h : r.head.flag = 0) :
    ∃ msg blob, r.body = .ok msg blob ∧ msg.length = r.head.msgLen.toNat ∧
      blob.length = r.head.blobLen.toNatClampNeg ∧ Int32.ofNat blob.length = r.head.blobLen := by
  obtain ⟨seq, body, hfits⟩ := r
  cases body with
  | errno n => exact absurd h (by decide : respFlagHasErrno ≠ 0)
  | errString s => exact absurd h (by decide : respFlagHasErrString ≠ 0)
  | ok msg blob =>
    have hle : msg.length + blob.length ≤ i32Max := List.length_append ▸ hfits
    refine ⟨msg, blob, rfl, (toNat_lengths hfits).1.symm, ?_, rfl⟩
    exact (toNatClampNeg_ofNat_i32 (by omega)).symm

theorem regular (r : Resp) : r.head.Regular := by
  obtain ⟨seq, body, hfits⟩ := r
  cases body with
  | errno n => exact ⟨⟨rfl, rfl⟩, Or.inr (Or.inl ⟨rfl, rfl⟩)⟩
  | errString s =>
    exact ⟨⟨rfl, rfl⟩, Or.inr (Or.inr ⟨rfl, rfl, Int32.not_lt.mp (ofNat_i32_nonneg hfits)⟩)⟩
  | ok msg blob =>
    have hle : msg.length + blob.length ≤ i32Max := List.length_append ▸ hfits
    have hblob : blob.length ≤ i32Max := by omega
    have hlen := bodyLen_head ⟨seq, .ok msg blob, hfits⟩
    refine ⟨⟨rfl, rfl⟩, Or.inl ⟨rfl, Int32.not_lt.mp (ofNat_i32_nonneg hblob), ?_⟩⟩
    exact Nat.le_trans (Nat.le_of_eq hlen) hfits

end Resp

/-! ## The protocol -/

/-- How far the receive future has come with a response. -/
structure Answering (B : Type) where
  /-- answers came that excuse anything -/
  excused : Bool
  /-- the header read last -/
  head : Option RespHead
  /-- the task taken for it, until it is completed -/
  task : Option (Task B)
  /-- the bytes read after the header -/
  read : List UInt8
  /-- `closed` was found set -/
  sawClosed : Bool
  /-- the close channel has fired -/
  fired : Bool
  /-- no task was found, or no header came -/
  leaving : Bool

namespace Answering

variable {B : Type}

/-- Before the first response. -/
def none : Answering B := ⟨false, .none, .none, [], false, false, false⟩

def excuse (y : Answering B) : Answering B := { y with excused := true }

/-- Nothing of a response is left to read or to do. -/
def Whole (y : Answering B) : Prop :=
  y.task = .none ∧ ∀ head ∈ y.head, y.read.length = head.bodyLen

/-- A header was read, and nothing else. -/
def Fresh (y : Answering B) (seq : UInt64) : Prop :=
  y.task = .none ∧ y.read = [] ∧ ∃ head ∈ y.head, head.seq = seq

/-- After the answer to the read of a header. -/
def readHead (y : Answering B) (cancellable : Bool) : HeadRead → Answering B
  | .ok headBuf =>
    match RespHead.decodeHead headBuf with
    | .ok head =>
      if head.Regular then { y with head := some head, task := .none, read := [] } else y.excuse
    | .error _ => y.excuse
  | .err => if cancellable then y.excuse else { y with leaving := true }
  | .closed => { y with fired := true }

/-- After the answer to the read of `n` bytes. -/
def readExact (y : Answering B) (n : ℕ) : Option (List UInt8) → Answering B
  | some bs => if bs.length = n then { y with read := y.read ++ bs } else y.excuse
  | .none => y.excuse

/-- After the answer of `take_task`. -/
def take (y : Answering B) (seq : UInt64) (found : Option (Task B)) : Answering B :=
  if found.all (·.seq = seq) then { y with task := found } else y.excuse

variable [ClientTask B]

/-- The task is completed as by any response that begins like this. -/
def Answers (y : Answering B) (d : Completion B) : Prop :=
  ∃ head ∈ y.head, ∃ task ∈ y.task, ∀ r : Resp, r.head = head → y.read <+: r.body.payload →
    d = r.body.complete task

end Answering

variable {B : Type} [ClientTask B]

def answering : Protocol (RecvOp B) RecvOp.Res (Answering B) where
  ok y o := y.excused = true ∨
    match o with
    | .storeClosed => y.sawClosed = true ∨ y.fired = true
    | .checkPendingTasksEmpty => y.sawClosed = true
    | .readHead cancellable => y.Whole ∧ (cancellable = false → y.sawClosed = true)
    | .readExact n => ∃ head ∈ y.head, y.read.length + n ≤ head.bodyLen
    | .takeTask seq | .resumeTakeTask seq => y.Fresh seq
    | .done t => y.Answers (.done t)
    | .errorHandle t => y.Answers (.errorHandled t)
    | .panic => False
    | _ => True
  next y
    | .loadClosed, closed => { y with sawClosed := closed }
    | .checkPendingTasksEmpty, empty => { y with leaving := empty }
    | .loadHasErr, hasErr => if hasErr then y.excuse else y
    | .readHead cancellable, r => y.readHead cancellable r
    | .readExact n, r => y.readExact n r
    | .takeTask seq, some found => y.take seq found
    | .resumeTakeTask seq, found => y.take seq found
    | .done _, _ => { y with task := none }
    | .errorHandle _, _ => { y with task := none }
    | _, _ => y

/-! ## A response -/

section Excused

variable {α : Type} {post : α → Answering B → Prop}
  (hpost : ∀ a y, y.excused = true → post a y)

include hpost

theorem answering_of_excused {y : Answering B} (h : y.excused = true) (p : Recv B α) :
    Follows answering post y p := by
  refine Follows.of_closed (C := fun y : Answering B => y.excused = true) (fun y o h => Or.inl h)
    (fun y o r h => ?_) hpost h p
  cases o with
  | loadHasErr =>
    cases r with
    | true => rfl
    | false => exact h
  | readHead cancellable =>
    change (y.readHead cancellable r).excused = true
    unfold Answering.readHead
    split
    · split
      · split
        · exact h
        · rfl
      · rfl
    · split
      · rfl
      · exact h
    · exact h
  | readExact n =>
    change (y.readExact n r).excused = true
    unfold Answering.readExact
    split
    · split
      · exact h
      · rfl
    · rfl
  | takeTask seq =>
    cases r with
    | none => exact h
    | some found =>
      change (y.take seq found).excused = true
      rw [Answering.take]
      split
      · exact h
      · rfl
  | resumeTakeTask seq =>
    change (y.take seq r).excused = true
    rw [Answering.take]
    split
    · exact h
    · rfl
  | panic => cases r
  | _ => exact h

/-- The bytes asked for, or an excuse. -/
theorem answering_readExact {y : Answering B} {head : RespHead} (hhead : y.head = some head)
    {n : ℕ} (hlen : y.read.length + n ≤ head.bodyLen) {k : Option (List UInt8) → Recv B α}
    (hk : ∀ bs : List UInt8, bs.length = n →
      Follows answering post { y with read := y.read ++ bs } (k (some bs))) :
    Follows answering post y (.act (.readExact n) k) := by
  refine ⟨Or.inr ⟨head, hhead, hlen⟩, fun r => ?_⟩
  cases r with
  | none => exact answering_of_excused hpost rfl _
  | some bs =>
    change Follows answering post (y.readExact n (some bs)) _
    rw [Answering.readExact]
    split
    · rename_i hbs
      exact hk bs hbs
    · exact answering_of_excused hpost rfl _

end Excused

namespace Answering

/-- The rest of the response has been read, and its task is completed. -/
def BodyRead (y : Answering B) (head : RespHead) (ok : Bool) (y' : Answering B) : Prop :=
  y'.excused = true ∨
    ok = true ∧ ∃ read, read.length = head.bodyLen ∧ y' = { y with task := .none, read }

omit [ClientTask B] in
theorem BodyRead.of_excused (y : Answering B) (head : RespHead) (ok : Bool) (y' : Answering B)
    (h : y'.excused = true) : y.BodyRead head ok y' := Or.inl h

end Answering

section Body

open TcpClient

variable {pf : Platform} {y : Answering B} {head : RespHead} (hhead : y.head = some head)

include hhead

section Alloc

variable (halloc : ∀ n, 0 < n → pf.alloc n = true)

include halloc

/-- What is skipped is the rest of the response. -/
theorem answering_recvAndDump (htask : y.task = none) {l : ℕ} (hpos : 0 < l) (hmax : l ≤ i32Max)
    (hlen : y.read.length + l = head.bodyLen) :
    Follows answering (y.BodyRead head) y (recvAndDump pf l) := by
  have hsize : 0 < Int32.ofNat l := (ofNat_i32_pos hmax).mpr hpos
  rw [recvAndDump_of_pos hsize, if_pos (halloc _ hsize), toNatClampNeg_ofNat_i32 hmax]
  refine answering_readExact (Answering.BodyRead.of_excused y head) hhead hlen.le fun bs hbs => ?_
  refine Or.inr ⟨rfl, y.read ++ bs, ?_, ?_⟩
  · rw [List.length_append, hbs, hlen]
  · rw [← htask]

/-- A response nobody waits for. -/
theorem answering_recvUnknown (htask : y.task = none) (hread : y.read = []) (hreg : head.Regular) :
    Follows answering (y.BodyRead head) y (recvUnknown pf head) := by
  obtain ⟨r, rfl, -⟩ := hreg.exists_resp (List.length_replicate (a := (0 : UInt8)))
  have hlen : (dataLen r.head).toNat = r.body.payload.length := r.toNat_dataLen
  have hbody := r.bodyLen_head
  have hover : ¬ (r.head.flag = 0 ∧ pf.overflowChecks ∧
      2 ^ 32 ≤ r.head.msgLen.toNat + r.head.blobLen.toUInt32.toNat) := r.not_overflows pf
  rw [recvUnknown, if_neg hover]
  by_cases hpos : 0 < dataLen r.head
  · rw [if_pos hpos, hlen]
    refine answering_recvAndDump hhead halloc htask ?_ r.fits ?_
    · rw [← hlen]
      exact UInt32.lt_iff_toNat_lt.mp hpos
    · rw [hread, hbody]
      exact Nat.zero_add _
  · rw [if_neg hpos]
    refine Or.inr ⟨rfl, [], ?_, ?_⟩
    · rw [hbody, ← hlen]
      rw [UInt32.lt_iff_toNat_lt] at hpos
      exact (Nat.eq_zero_of_not_pos hpos).symm
    · rw [← htask, ← hread]

end Alloc

/-- An error response. -/
theorem answering_recvError {task : Task B} (htask : y.task = some task) (hread : y.read = [])
    (hreg : head.Regular) (hflag : 0 < head.flag) :
    Follows answering (y.BodyRead head) y (recvError head task) := by
  rw [recvError]
  obtain ⟨-, ⟨hzero, -⟩ | ⟨herrno, -⟩ | ⟨hstring, -, hnonneg⟩⟩ := hreg
  · exact absurd hflag (by rw [hzero]; decide)
  · rw [if_pos herrno]
    refine ⟨Or.inr ⟨head, hhead, task, htask, fun r hr _ => ?_⟩, fun _ => Or.inr ⟨rfl, [], ?_, ?_⟩⟩
    · subst hr
      rw [Resp.body_errno herrno]
      rfl
    · rw [RespHead.bodyLen, herrno]
      rfl
    · rw [← hread]
      rfl
  · have hne : head.flag ≠ respFlagHasErrno := by
      rw [hstring]
      decide
    have hlen : head.bodyLen = head.blobLen.toNatClampNeg := by
      rw [RespHead.bodyLen, if_neg (by rw [hstring]; decide), if_pos hstring]
    rw [if_neg hne, if_pos hstring, if_neg (Int32.not_lt.mpr hnonneg)]
    have hle : y.read.length + head.blobLen.toNatClampNeg ≤ head.bodyLen := by
      rw [hread, hlen]
      exact Nat.le_of_eq (Nat.zero_add _)
    refine answering_readExact (Answering.BodyRead.of_excused y head) hhead hle fun bs hbs => ?_
    refine ⟨Or.inr ⟨head, hhead, task, htask, fun r hr hstarts => ?_⟩, fun _ =>
      Or.inr ⟨rfl, y.read ++ bs, ?_, rfl⟩⟩
    · subst hr
      obtain ⟨s, hbody, hs⟩ := Resp.body_errString hstring
      rw [hread, List.nil_append, hbody] at hstarts
      obtain rfl : bs = s := hstarts.eq_of_length (hbs.trans hs.symm)
      rw [hbody]
      rfl
    · rw [hread, List.nil_append, hbs, hlen]

/-- The end of a successful response. -/
theorem answering_finishTask {task task' : Task B} (htask : y.task = some task) {msg : List UInt8}
    (hmsg : msg.length = head.msgLen.toNat) (hread : y.read.length = head.bodyLen)
    (hbody : ∀ r : Resp, r.head = head → y.read <+: r.body.payload →
      ∃ blob, r.body = .ok msg blob ∧ placeBlob task blob = (task', true)) :
    Follows answering (y.BodyRead head) y (finishTask head task' msg) := by
  have hdone : Answering.BodyRead y head true { y with task := none } :=
    Or.inr ⟨rfl, y.read, hread, rfl⟩
  have hpos : 0 < head.msgLen ↔ msg ≠ [] := by
    rw [UInt32.lt_iff_toNat_lt, ← hmsg]
    exact List.length_pos_iff
  -- the completion depends on the decoding alone
  have hcomplete : ∀ d : Completion B,
      (∀ blob, placeBlob task blob = (task', true) → d = (RespBody.ok msg blob).complete task) →
      y.Answers d := fun d hd => by
    refine ⟨head, hhead, task, htask, fun r hr hstarts => ?_⟩
    obtain ⟨blob, hok, hplace⟩ := hbody r hr hstarts
    rw [hok]
    exact hd blob hplace
  rw [finishTask]
  by_cases hnil : msg = []
  · rw [if_neg fun h => hpos.mp h hnil]
    refine ⟨Or.inr (hcomplete _ fun blob hplace => ?_), fun _ => hdone⟩
    simp only [RespBody.complete, hplace, decodeMsg, if_pos hnil]
  · rw [if_pos (hpos.mpr hnil)]
    rcases hdec : task'.decodeResp msg with ⟨task'', _ | _⟩
    · refine ⟨Or.inr (hcomplete _ fun blob hplace => ?_), fun _ => hdone⟩
      simp only [RespBody.complete, hplace, decodeMsg, if_neg hnil, hdec]
    · refine ⟨Or.inr (hcomplete _ fun blob hplace => ?_), fun _ => hdone⟩
      simp only [RespBody.complete, hplace, decodeMsg, if_neg hnil, hdec]

/-- The message of a response. -/
theorem answering_recvMsg (hread : y.read = []) (hzero : head.flag = 0) :
    Follows answering
      (fun msg y' => y'.excused = true ∨
        ∃ m : List UInt8, msg = some m ∧ m.length = head.msgLen.toNat ∧ y' = { y with read := m })
      y (recvMsg head) := by
  rw [recvMsg]
  split
  · have hle : y.read.length + head.msgLen.toNat ≤ head.bodyLen := by
      rw [hread, RespHead.bodyLen, if_pos hzero, List.length_nil, Nat.zero_add]
      exact Nat.le_add_right _ _
    refine answering_readExact (fun _ _ h => Or.inl h) hhead hle fun bs hbs => ?_
    rw [hread, List.nil_append]
    exact Or.inr ⟨bs, rfl, hbs, rfl⟩
  · rename_i hpos
    rw [UInt32.lt_iff_toNat_lt] at hpos
    refine Or.inr ⟨[], rfl, (Nat.eq_zero_of_not_pos hpos).symm, ?_⟩
    rw [← hread]

/-- A response whose task was found. -/
theorem answering_recvTask (halloc : ∀ n, 0 < n → pf.alloc n = true) (hreserve : ReservesExactly B)
    {task : Task B} (htask : y.task = some task) (hread : y.read = []) (hreg : head.Regular) :
    Follows answering (y.BodyRead head) y (recvTask pf head task) := by
  rw [recvTask]
  split
  · rename_i hflag
    exact answering_recvError hhead htask hread hreg hflag
  rename_i hflag
  obtain ⟨-, ⟨hzero, hnonneg, hle⟩ | ⟨herrno, -⟩ | ⟨hstring, -⟩⟩ := hreg
  rotate_left
  · exact absurd (by rw [herrno]; decide) hflag
  · exact absurd (by rw [hstring]; decide) hflag
  have hlen : head.bodyLen = head.msgLen.toNat + head.blobLen.toNatClampNeg := by
    rw [RespHead.bodyLen, if_pos hzero]
  have hmax := Nat.le_trans (Nat.le_add_left _ _) hle
  refine (answering_recvMsg hhead hread hzero).bind fun msg y' hy => ?_
  rcases hy with hexcused | ⟨m, rfl, hm, rfl⟩
  · exact answering_of_excused (Answering.BodyRead.of_excused y head) hexcused _
  dsimp only
  -- the response begins with the message
  have hmsg : ∀ {r : Resp} (rest : List UInt8), r.head = head → m ++ rest <+: r.body.payload →
      ∃ blob, r.body = .ok m blob ∧ rest <+: blob ∧ blob.length = head.blobLen.toNatClampNeg ∧
        Int32.ofNat blob.length = head.blobLen := fun {r} rest hr hstarts => by
    subst hr
    obtain ⟨msg, blob, hbody, hmsgLen, hblobLen, hblob⟩ := Resp.body_ok hzero
    obtain ⟨tail, htail⟩ := hstarts
    rw [hbody, List.append_assoc] at htail
    obtain ⟨rfl, hrest⟩ := List.append_inj htail (hm.trans hmsgLen.symm)
    exact ⟨blob, hbody, ⟨tail, hrest⟩, hblobLen, hblob⟩
  split
  · rename_i hpos
    have hblobPos : 0 < head.blobLen.toNatClampNeg := (Int32.toNatClampNeg_pos_iff _).mpr hpos
    have hne : ∀ {blob : List UInt8}, blob.length = head.blobLen.toNatClampNeg → blob ≠ [] :=
      fun h => List.length_pos_iff.mp (by rw [h]; exact hblobPos)
    rcases hres : task.reserveRespBlob head.blobLen with ⟨task', _ | len⟩
    · refine ⟨Or.inr ⟨head, hhead, task, htask, fun r hr hstarts => ?_⟩, fun _ => ?_⟩
      · obtain ⟨blob, hbody, -, hblobLen, hblob⟩ :=
          hmsg [] hr (by rw [List.append_nil]; exact hstarts)
        rw [hbody, RespBody.complete, placeBlob, if_neg (hne hblobLen), hblob, hres]
      · refine (answering_recvAndDump (y := { y with task := none, read := m }) hhead halloc rfl
          hblobPos hmax ?_).mono fun _ _ h => h
        rw [hm, hlen]
    · obtain rfl : len = head.blobLen.toNatClampNeg :=
        hreserve task.body head.blobLen len (congrArg Prod.snd hres)
      refine answering_readExact (y := { y with read := m }) (Answering.BodyRead.of_excused y head)
        hhead (by rw [hm, hlen]) fun bs hbs => ?_
      refine (answering_finishTask (y := { y with read := m ++ bs }) hhead htask hm ?_
        fun r hr hstarts => ?_).mono fun _ _ h => h
      · rw [List.length_append, hm, hbs, hlen]
      · obtain ⟨blob, hbody, hrest, hblobLen, hblob⟩ := hmsg _ hr hstarts
        obtain rfl : bs = blob := hrest.eq_of_length (hbs.trans hblobLen.symm)
        refine ⟨bs, hbody, ?_⟩
        rw [placeBlob, if_neg (hne hbs), hblob, hres]
  · rename_i hpos
    have hblobZero : head.blobLen.toNatClampNeg = 0 :=
      Nat.eq_zero_of_not_pos fun h => hpos ((Int32.toNatClampNeg_pos_iff _).mp h)
    refine (answering_finishTask (y := { y with read := m }) hhead htask hm ?_
      fun r hr hstarts => ?_).mono fun _ _ h => h
    · rw [hm, hlen, hblobZero, Nat.add_zero]
    · obtain ⟨blob, hbody, -, hblobLen, -⟩ :=
        hmsg [] hr (by rw [List.append_nil]; exact hstarts)
      rw [hblobZero] at hblobLen
      obtain rfl := List.length_eq_zero_iff.mp hblobLen
      exact ⟨[], hbody, if_pos rfl⟩

end Body

/-! ## A turn -/

/-- A response was read to its end; an error needs a reason to leave, and only the
close channel cuts the wait for a header short. -/
def Answering.RespRead (y : Answering B) (r : Except RpcIntErr Bool) (y' : Answering B) : Prop :=
  y'.excused = true ∨ (y'.Whole ∧ y'.sawClosed = y.sawClosed) ∧
    match r with
    | .error _ => y'.leaving = true
    | .ok true => True
    | .ok false => y'.fired = true

/-- A turn ends with a response read to its end, and with an error only if there is
a reason to leave. -/
def Answering.Ends (r : Option RpcIntErr) (y : Answering B) : Prop :=
  y.excused = true ∨ y.Whole ∧ (r.isSome = true → y.leaving = true)

section Turn

open TcpClient

variable {pf : Platform} (halloc : ∀ n, 0 < n → pf.alloc n = true) (hreserve : ReservesExactly B)

include halloc hreserve

theorem answering_recvFound {y : Answering B} {head : RespHead} (hhead : y.head = some head)
    (hread : y.read = []) (hreg : head.Regular) :
    Follows answering (y.BodyRead head) y (recvFound pf head y.task) := by
  rcases htask : y.task with _ | task
  · exact answering_recvUnknown hhead halloc htask hread hreg
  · refine (answering_recvTask hhead halloc hreserve htask hread hreg).bind fun r y' hy => ?_
    exact ⟨Or.inr trivial, fun _ => hy⟩

/-- The task asked for is the one the header names. -/
theorem answering_recvRespBody {y : Answering B} {head : RespHead} (hhead : y.head = some head)
    (htask : y.task = none) (hread : y.read = []) (hreg : head.Regular) :
    Follows answering (y.BodyRead head) y (recvRespBody pf head) := by
  have hfresh : y.Fresh head.seq := ⟨htask, hread, head, hhead, rfl⟩
  have htake : ∀ found, Follows answering (y.BodyRead head) (y.take head.seq found)
      (recvFound pf head found) := fun found => by
    rw [Answering.take]
    split
    · exact answering_recvFound halloc hreserve (y := { y with task := found }) hhead hread hreg
    · exact answering_of_excused (Answering.BodyRead.of_excused y head) rfl _
  refine ⟨Or.inr hfresh, fun r => ?_⟩
  cases r with
  | some found => exact htake found
  | none => exact ⟨Or.inr hfresh, fun found => htake found⟩

theorem answering_readResp {y : Answering B} (hwhole : y.Whole) {closeCh : Bool}
    (hclosed : closeCh = false → y.sawClosed = true) :
    Follows answering y.RespRead y (readResp pf closeCh) := by
  have hexcuse : ∀ p : Recv B (Except RpcIntErr Bool), Follows answering y.RespRead y.excuse p :=
    fun p => answering_of_excused (fun _ _ h => Or.inl h) rfl p
  refine ⟨Or.inr ⟨hwhole, hclosed⟩, fun r => ?_⟩
  change Follows answering _ (y.readHead closeCh r) _
  cases r with
  | closed => exact Or.inr ⟨⟨hwhole, rfl⟩, rfl⟩
  | err =>
    cases closeCh with
    | true => exact hexcuse _
    | false => exact Or.inr ⟨⟨hwhole, rfl⟩, rfl⟩
  | ok headBuf =>
    change Follows answering _ _ (recvHead pf (RespHead.decodeHead headBuf))
    rw [Answering.readHead]
    rcases RespHead.decodeHead headBuf with e | head
    · exact hexcuse _
    · dsimp only
      split
      · rename_i hreg
        refine (answering_recvRespBody halloc hreserve
          (y := { y with head := some head, task := none, read := [] }) rfl rfl rfl hreg).bind
          fun ok y' hy => ?_
        rcases hy with hexcused | ⟨rfl, read, hlen, rfl⟩
        · exact answering_of_excused (fun _ _ h => Or.inl h) hexcused _
        · refine Or.inr ⟨⟨⟨rfl, fun head' hhead' => ?_⟩, rfl⟩, trivial⟩
          obtain rfl := Option.some.inj hhead'
          exact hlen
      · exact hexcuse _

/-- A turn that finds the connection closed. -/
theorem answering_recvClosed {y : Answering B} (hwhole : y.Whole) (hclosed : y.sawClosed = true)
    {quit : Bool} (hquit : quit = true → y.leaving = true) :
    Follows answering Answering.Ends y (recvClosed pf quit) := by
  cases quit with
  | true => exact Or.inr ⟨hwhole, fun _ => hquit rfl⟩
  | false =>
    refine (answering_readResp halloc hreserve hwhole fun _ => hclosed).bind fun r y' hy => ?_
    rcases hy with hexcused | ⟨⟨hwhole', hsaw⟩, hr⟩
    · exact answering_of_excused (fun _ _ h => Or.inl h) hexcused _
    · cases r with
      | error e =>
        exact ⟨Or.inr (Or.inl (hsaw.trans hclosed)), fun _ => Or.inr ⟨hwhole', fun _ => hr⟩⟩
      | ok _ => exact Or.inr ⟨hwhole', nofun⟩

theorem answering_recvOneResp {y : Answering B} (hwhole : y.Whole) :
    Follows answering Answering.Ends y (recvOneResp pf) := by
  refine ⟨Or.inr trivial, fun closed => ?_⟩
  cases closed with
  | false =>
    change Follows answering _ { y with sawClosed := false } (readResp pf true >>= _)
    refine (answering_readResp halloc hreserve (y := { y with sawClosed := false }) hwhole
      Bool.noConfusion).bind fun r y' hy => ?_
    rcases hy with hexcused | ⟨⟨hwhole', -⟩, hr⟩
    · exact answering_of_excused (fun _ _ h => Or.inl h) hexcused _
    · rcases r with e | _ | _
      · exact Or.inr ⟨hwhole', fun _ => hr⟩
      · exact ⟨Or.inr (Or.inr hr), fun _ => Or.inr ⟨hwhole', nofun⟩⟩
      · exact Or.inr ⟨hwhole', nofun⟩
  | true =>
    refine ⟨Or.inr rfl, fun empty => ?_⟩
    cases empty with
    | true =>
      change Follows answering _ { y with sawClosed := true, leaving := true } (recvClosed pf true)
      exact answering_recvClosed halloc hreserve
        (y := { y with sawClosed := true, leaving := true }) hwhole rfl fun _ => rfl
    | false =>
      refine ⟨Or.inr trivial, fun hasErr => ?_⟩
      cases hasErr with
      | true => exact answering_of_excused (fun _ _ h => Or.inl h) rfl _
      | false =>
        exact answering_recvClosed halloc hreserve
          (y := { y with sawClosed := true, leaving := false }) hwhole rfl Bool.noConfusion

end Turn

end RazorRpc
