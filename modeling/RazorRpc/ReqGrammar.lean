import RazorRpc.ReqAction

/-!
# What the server takes for a request

`read_req` reads a header and then whatever the header asks for, so the requests on a
connection are what it makes of the bytes. It is more generous than the client: any `format`
and `client_id` will do, and a blob length from `2 ^ 31` on is no blob.

* `Input.Reads` — a computation reads these bytes, no more, and waits for the last of them;
  it composes (`Reads.bind`);
* `ReqFrame` — a request on the wire.

The result is `request_grammar`: the server reads frames, all of them, and nothing else.
-/

namespace RazorRpc

open Bytes TcpServer

/-! ## Reading -/

namespace Input

variable {α β : Type}

/-- What is read as `a` is these bytes, and as long as one of them is missing nothing is. -/
structure Reads (m : Input α) (bytes : List UInt8) (a : α) : Prop where
  whole : ∀ rest, m (bytes ++ rest) = .ok (a, rest)
  cut : ∀ bs more, bytes = bs ++ more → more ≠ [] → m bs = .error .io

theorem reads_pure (a : α) : (pure a : Input α).Reads [] a := by
  refine ⟨fun rest => rfl, fun bs more hsplit hmore => ?_⟩
  exact absurd (List.append_eq_nil_iff.mp hsplit.symm).2 hmore

theorem reads_readExact {n : ℕ} {bytes : List UInt8} (h : bytes.length = n) :
    (readExact n).Reads bytes bytes := by
  refine ⟨readExact_append h, fun bs more hsplit hmore => ?_⟩
  have hpos := List.length_pos_iff.mpr hmore
  have hlen := congrArg List.length hsplit
  rw [List.length_append] at hlen
  exact if_neg (by omega)

/-- One after the other. -/
theorem Reads.bind {m : Input α} {f : α → Input β} {bytes bytes' : List UInt8} {a : α} {b : β}
    (hm : m.Reads bytes a) (hf : (f a).Reads bytes' b) : (m >>= f).Reads (bytes ++ bytes') b := by
  refine ⟨fun rest => ?_, fun bs more hsplit hmore => ?_⟩
  · rw [List.append_assoc, bind_ok (hm.whole _)]
    exact hf.whole rest
  · -- the bytes end within the first part, or within the second
    rcases List.append_eq_append_iff.mp hsplit with ⟨bs', rfl, hsplit'⟩ | ⟨more', hbytes, rfl⟩
    · rw [bind_ok (hm.whole bs')]
      exact hf.cut bs' more hsplit' hmore
    · by_cases hnil : more' = []
      · subst hnil
        rw [List.append_nil] at hbytes
        have hwhole := hm.whole []
        rw [List.append_nil, hbytes] at hwhole
        rw [bind_ok hwhole]
        exact hf.cut [] _ rfl hmore
      · change (m bs >>= fun p => f p.1 p.2) = _
        rw [hm.cut bs more' hbytes hnil]
        rfl

theorem Reads.map {m : Input α} {bytes : List UInt8} {a : α} (h : m.Reads bytes a) (f : α → β) :
    (f <$> m).Reads bytes (f a) := by
  rw [map_eq_pure_bind]
  have hbind := h.bind (f := fun a => pure (f a)) (reads_pure (f a))
  rw [List.append_nil] at hbind
  exact hbind

/-- What `read_exact` returns is what it took. -/
theorem of_readExact {n : ℕ} {bs bytes rest : List UInt8} (h : readExact n bs = .ok (bytes, rest)) :
    bs = bytes ++ rest ∧ bytes.length = n := by
  rw [readExact] at h
  split at h
  · rename_i hle
    cases h
    exact ⟨(List.take_append_drop n bs).symm, List.length_take_of_le hle⟩
  · cases h

end Input

open Input

/-! ## The header -/

/-- A header is its bytes. -/
theorem ReqHead.toBytes_ofBytes {bs : List UInt8} (h : bs.length = rpcReqHeaderLen) :
    (ofBytes bs).toBytes = bs := by
  have hslice : ∀ off n, off + n ≤ 32 → (slice bs off n).length = n := by
    intro off n hle
    rw [slice, List.length_take, List.length_drop, h, rpcReqHeaderLen]
    omega
  have hlt : ∀ off n, off + n ≤ 32 → fromLe (slice bs off n) < 256 ^ n := by
    intro off n hle
    have hlt := fromLe_lt (slice bs off n)
    rwa [hslice off n hle] at hlt
  have hjoin : ∀ off n, bs.take off ++ slice bs off n = bs.take (off + n) := by
    intro off n
    rw [slice, List.take_add]
  have hfirst : slice bs 0 2 = bs.take 2 := rfl
  rw [toBytes, ofBytes]
  dsimp only
  rw [UInt16.toNat_ofNat_of_lt' (hlt 0 2 (by decide)),
    UInt8.toNat_ofNat_of_lt' (hlt 2 1 (by decide)),
    UInt8.toNat_ofNat_of_lt' (hlt 3 1 (by decide)),
    UInt32.toNat_ofNat_of_lt' (hlt 4 4 (by decide)),
    UInt64.toNat_ofNat_of_lt' (hlt 8 8 (by decide)),
    UInt64.toNat_ofNat_of_lt' (hlt 16 8 (by decide)),
    UInt32.toNat_ofNat_of_lt' (hlt 24 4 (by decide)),
    UInt32.toNat_ofNat_of_lt' (hlt 28 4 (by decide)),
    le_fromLe (hslice 0 2 (by decide)), le_fromLe (hslice 2 1 (by decide)),
    le_fromLe (hslice 3 1 (by decide)), le_fromLe (hslice 4 4 (by decide)),
    le_fromLe (hslice 8 8 (by decide)), le_fromLe (hslice 16 8 (by decide)),
    le_fromLe (hslice 24 4 (by decide)), le_fromLe (hslice 28 4 (by decide)),
    hfirst, hjoin, hjoin, hjoin, hjoin, hjoin, hjoin, hjoin]
  exact List.take_of_length_le (Nat.le_of_eq h)

/-- The mask put back on a number it was taken off. -/
theorem xor_or_u32HighMask {x : UInt32} (h : x &&& u32HighMask ≠ 0) :
    (x ^^^ u32HighMask).toNat < 2 ^ 31 ∧ (x ^^^ u32HighMask) ||| u32HighMask = x := by
  have hbit : x.toBitVec.getLsbD 31 = true := by
    by_contra hclear
    refine h (UInt32.toBitVec_inj.mp ?_)
    rw [UInt32.toBitVec_and, toBitVec_u32HighMask, BitVec.and_twoPow, Bool.eq_false_iff.mpr hclear]
    rfl
  constructor
  · by_contra hge
    refine and_u32HighMask_ne_zero (Nat.le_of_not_lt hge) (UInt32.toBitVec_inj.mp ?_)
    have hclear : (x ^^^ u32HighMask).toBitVec.getLsbD 31 = false := by
      rw [UInt32.toBitVec_xor, toBitVec_u32HighMask, BitVec.getLsbD_xor, hbit]
      decide
    rw [UInt32.toBitVec_and, toBitVec_u32HighMask, BitVec.and_twoPow, hclear]
    rfl
  · apply UInt32.toBitVec_inj.mp
    rw [UInt32.toBitVec_or, UInt32.toBitVec_xor, toBitVec_u32HighMask]
    apply BitVec.eq_of_getLsbD_eq
    intro i hi
    by_cases h31 : i = 31
    · subst h31
      rw [BitVec.getLsbD_or, BitVec.getLsbD_xor, hbit]
      decide
    · simp [BitVec.getLsbD_twoPow, Ne.symm h31]

/-! ## Frames -/

/-- A request on the wire. -/
structure ReqFrame where
  format : UInt8
  clientId : UInt64
  seq : UInt64
  action : RpcAction
  msg : List UInt8
  /-- the field of the header; from `2 ^ 31` on there is no blob -/
  blobLen : UInt32
  blob : List UInt8
  inDomain : action.InDomain
  length_msg : msg.length ≤ u32Max
  length_blob : blob.length = blobLen.toInt32.toNatClampNeg

namespace ReqFrame

def head (f : ReqFrame) : ReqHead where
  magic := rpcMagic
  ver := rpcVersion1
  format := f.format
  action := (ReqHead.encodeAction f.action).1
  seq := f.seq
  clientId := f.clientId
  msgLen := UInt32.ofNat f.msg.length
  blobLen := f.blobLen

def bytes (f : ReqFrame) : List UInt8 :=
  f.head.toBytes ++ ((ReqHead.encodeAction f.action).2 ++ (f.msg ++ f.blob))

/-- The request the dispatcher gets. -/
def req (f : ReqFrame) : RpcSvrReq :=
  ⟨f.seq, f.action, f.msg, if 0 < f.blobLen.toInt32 then some f.blob else none⟩

end ReqFrame

/-! ## Frames are read -/

theorem reads_readAction {a : RpcAction} (ha : a.InDomain) {head : ReqHead}
    (hhead : head.action = (ReqHead.encodeAction a).1) :
    (readAction head).Reads (ReqHead.encodeAction a).2 a := by
  have hcarries := (ReqHead.carries_iff hhead).mpr ha
  cases a with
  | num n =>
    have hget : head.getAction = .ok n := hcarries
    simp only [readAction, hget]
    exact reads_pure _
  | str s =>
    obtain ⟨len, hget, hlen⟩ := hcarries
    have hlength : (ofStr s).length = len.toNatClampNeg := by
      rw [Int32.toNatClampNeg, hlen, Int.toNat_natCast]
    have hbytes : (ReqHead.encodeAction (.str s)).2 = ofStr s ++ [] := (List.append_nil _).symm
    simp only [readAction, hget]
    rw [hbytes]
    refine (reads_readExact hlength).bind ?_
    simp only [toStr?_ofStr]
    exact reads_pure _

theorem reads_readMsg {head : ReqHead} {msg : List UInt8} (h : head.msgLen.toNat = msg.length) :
    (readMsg head).Reads msg msg := by
  rw [readMsg]
  split
  · exact reads_readExact h.symm
  · rename_i hpos
    rw [UInt32.lt_iff_toNat_lt, h] at hpos
    obtain rfl : msg = [] := List.length_eq_zero_iff.mp (Nat.eq_zero_of_not_pos hpos)
    exact reads_pure _

section

variable {alloc : Int32 → Bool}

theorem reads_readBlob (halloc : ∀ n, 0 < n → alloc n = true) {head : ReqHead}
    {blob : List UInt8} (h : blob.length = head.blobLen.toInt32.toNatClampNeg) :
    (readBlob alloc head).Reads blob (if 0 < head.blobLen.toInt32 then some blob else none) := by
  by_cases hpos : 0 < head.blobLen.toInt32
  · rw [readBlob, if_pos hpos, if_pos (halloc _ hpos), if_pos hpos]
    exact (reads_readExact h).map some
  · rw [readBlob, if_neg hpos, if_neg hpos]
    rw [← Int32.toNatClampNeg_pos_iff, ← h] at hpos
    obtain rfl : blob = [] := List.length_eq_zero_iff.mp (Nat.eq_zero_of_not_pos hpos)
    exact reads_pure _

/-- A frame is read as its request. -/
theorem ReqFrame.reads (halloc : ∀ n, 0 < n → alloc n = true) (f : ReqFrame) :
    (readReq alloc).Reads f.bytes f.req := by
  have hdecode : ReqHead.decodeHead f.head.toBytes = .ok f.head := by
    simp [ReqHead.decodeHead, ReqFrame.head]
  have hmsg : f.head.msgLen.toNat = f.msg.length := by
    have hlt := f.length_msg
    rw [u32Max] at hlt
    exact UInt32.toNat_ofNat_of_lt' (Nat.lt_succ_of_le hlt)
  refine (reads_readExact f.head.length_toBytes).bind ?_
  simp only [hdecode]
  refine (reads_readAction f.inDomain rfl).bind ((reads_readMsg hmsg).bind ?_)
  have hlen : f.blob.length = f.head.blobLen.toInt32.toNatClampNeg := f.length_blob
  have hblob := reads_readBlob halloc hlen
  have hret := hblob.bind (f := fun blob => pure (⟨f.seq, f.action, f.msg, blob⟩ : RpcSvrReq))
    (reads_pure _)
  rw [List.append_nil] at hret
  exact hret

end

/-! ## Only frames are read -/

theorem of_readAction {head : ReqHead} {bs rest : List UInt8} {a : RpcAction}
    (h : readAction head bs = .ok (a, rest)) :
    bs = (ReqHead.encodeAction a).2 ++ rest ∧ head.action = (ReqHead.encodeAction a).1 ∧
      a.InDomain := by
  rw [readAction] at h
  by_cases hmask : head.action &&& u32HighMask = 0
  · have hget : head.getAction = .ok head.action.toInt32 := if_pos hmask
    simp only [hget] at h
    cases h
    refine ⟨rfl, (UInt32.toUInt32_toInt32 _).symm, ?_⟩
    have hlt : head.action.toNat < 2 ^ 31 := by
      by_contra hge
      exact and_u32HighMask_ne_zero (Nat.le_of_not_lt hge) hmask
    rw [RpcAction.InDomain, ← toNat_toUInt32_lt_iff, UInt32.toUInt32_toInt32]
    exact hlt
  · have hget : head.getAction = .error (head.action ^^^ u32HighMask).toInt32 := if_neg hmask
    simp only [hget] at h
    obtain ⟨hlt, hfield⟩ := xor_or_u32HighMask hmask
    obtain ⟨buf, bs', hread, hstr⟩ := of_bind_ok h
    obtain ⟨hsplit, hlen⟩ := of_readExact hread
    rcases hs : toStr? buf with _ | s
    · simp only [hs] at hstr
      cases hstr
    · simp only [hs] at hstr
      cases hstr
      have hbytes := ofStr_eq_of_toStr? hs
      have hnat : (head.action ^^^ u32HighMask).toInt32.toNatClampNeg =
          (head.action ^^^ u32HighMask).toNat := by
        have hcast : (head.action ^^^ u32HighMask).toInt32 =
            Int32.ofNat (head.action ^^^ u32HighMask).toNat := by
          rw [← UInt32.toInt32_ofNat', UInt32.ofNat_toNat]
        rw [hcast, Int32.toNatClampNeg_ofNat_of_lt hlt]
      rw [hnat, ← hbytes] at hlen
      refine ⟨?_, ?_, ?_⟩
      · rw [hsplit, ← hbytes]
        rfl
      · rw [ReqHead.encodeAction, hlen, UInt32.ofNat_toNat]
        exact hfield.symm
      · rw [RpcAction.InDomain, hlen]
        exact hlt

theorem of_readMsg {head : ReqHead} {bs rest msg : List UInt8}
    (h : readMsg head bs = .ok (msg, rest)) :
    bs = msg ++ rest ∧ head.msgLen.toNat = msg.length := by
  rw [readMsg] at h
  split at h
  · obtain ⟨hsplit, hlen⟩ := of_readExact h
    exact ⟨hsplit, hlen.symm⟩
  · rename_i hpos
    cases h
    refine ⟨rfl, Nat.eq_zero_of_not_pos fun hlt => hpos ?_⟩
    exact UInt32.lt_iff_toNat_lt.mpr hlt

theorem of_readBlob {alloc : Int32 → Bool} {head : ReqHead} {bs rest : List UInt8}
    {blob : Option (List UInt8)} (h : readBlob alloc head bs = .ok (blob, rest)) :
    bs = blob.getD [] ++ rest ∧ (blob.getD []).length = head.blobLen.toInt32.toNatClampNeg ∧
      blob = if 0 < head.blobLen.toInt32 then some (blob.getD []) else none := by
  by_cases hpos : 0 < head.blobLen.toInt32
  · rw [readBlob, if_pos hpos] at h
    split at h
    · rw [map_eq_pure_bind] at h
      obtain ⟨bytes, bs', hread, hret⟩ := of_bind_ok h
      cases hret
      obtain ⟨hsplit, hlen⟩ := of_readExact hread
      exact ⟨hsplit, hlen, (if_pos hpos).symm⟩
    · cases h
  · rw [readBlob, if_neg hpos] at h
    cases h
    refine ⟨rfl, ?_, (if_neg hpos).symm⟩
    rw [← Int32.toNatClampNeg_pos_iff] at hpos
    exact (Nat.eq_zero_of_not_pos hpos).symm

/-- A header that decodes has the right magic and version. -/
theorem ReqHead.of_decodeHead {headBuf : List UInt8} {head : ReqHead}
    (h : decodeHead headBuf = .ok head) :
    head = ofBytes headBuf ∧ head.magic = rpcMagic ∧ head.ver = rpcVersion1 := by
  rw [decodeHead] at h
  split at h
  · cases h
  · rename_i hmagic
    split at h
    · cases h
    · rename_i hver
      cases h
      exact ⟨rfl, not_not.mp hmagic, not_not.mp hver⟩

/-- What is read as a request is a frame. -/
theorem ReqFrame.of_readReq {alloc : Int32 → Bool} {bs rest : List UInt8} {req : RpcSvrReq}
    (h : readReq alloc bs = .ok (req, rest)) :
    ∃ f : ReqFrame, bs = f.bytes ++ rest ∧ f.req = req := by
  obtain ⟨headBuf, bs₁, hread, hbody⟩ := of_bind_ok h
  obtain ⟨hsplit, hlen⟩ := of_readExact hread
  rcases hdecode : ReqHead.decodeHead headBuf with e | head
  · simp only [hdecode] at hbody
    cases hbody
  · simp only [hdecode] at hbody
    obtain ⟨action, bs₂, haction, hbody⟩ := of_bind_ok hbody
    obtain ⟨msg, bs₃, hmsg, hbody⟩ := of_bind_ok hbody
    obtain ⟨blob, bs₄, hblob, hret⟩ := of_bind_ok hbody
    cases hret
    obtain ⟨hhead, hmagic, hver⟩ := ReqHead.of_decodeHead hdecode
    obtain ⟨rfl, hfield, hdom⟩ := of_readAction haction
    obtain ⟨rfl, hmsgLen⟩ := of_readMsg hmsg
    obtain ⟨rfl, hblobLen, hsome⟩ := of_readBlob hblob
    have hfits : msg.length ≤ u32Max := by
      rw [← hmsgLen, u32Max]
      exact Nat.le_of_lt_succ head.msgLen.toNat_lt
    let f : ReqFrame := ⟨head.format, head.clientId, head.seq, action, msg, head.blobLen,
      blob.getD [], hdom, hfits, hblobLen⟩
    have hsame : f.head = head := by
      obtain ⟨magic, ver, format, field, seq, clientId, msgLen, blobLen⟩ := head
      obtain rfl : magic = rpcMagic := hmagic
      obtain rfl : ver = rpcVersion1 := hver
      obtain rfl : field = (ReqHead.encodeAction action).1 := hfield
      obtain rfl : UInt32.ofNat msg.length = msgLen := by
        rw [← hmsgLen]
        exact UInt32.ofNat_toNat
      rfl
    refine ⟨f, ?_, ?_⟩
    · rw [hsplit, ReqFrame.bytes, hsame, hhead, ReqHead.toBytes_ofBytes hlen]
      simp only [List.append_assoc]
      rfl
    · rw [ReqFrame.req]
      exact congrArg _ hsome.symm

/-! ## The grammar -/

theorem readReqs_iff {alloc : Int32 → Bool} (halloc : ∀ n, 0 < n → alloc n = true) {n : ℕ}
    {bs rest : List UInt8} {reqs : List RpcSvrReq} :
    readReqs alloc n bs = .ok (reqs, rest) ↔ ∃ fs : List ReqFrame, fs.length = n ∧
      bs = fs.flatMap ReqFrame.bytes ++ rest ∧ reqs = fs.map ReqFrame.req := by
  constructor
  · intro h
    induction n generalizing bs reqs with
    | zero =>
      cases h
      exact ⟨[], rfl, rfl, rfl⟩
    | succ n ih =>
      obtain ⟨req, bs', hread, hrest⟩ := of_bind_ok h
      obtain ⟨reqs', bs'', hreqs, hret⟩ := of_bind_ok hrest
      cases hret
      obtain ⟨f, rfl, rfl⟩ := ReqFrame.of_readReq hread
      obtain ⟨fs, rfl, rfl, rfl⟩ := ih hreqs
      refine ⟨f :: fs, rfl, ?_, rfl⟩
      rw [List.flatMap_cons, List.append_assoc]
  · rintro ⟨fs, rfl, rfl, rfl⟩
    induction fs with
    | nil => rfl
    | cons f fs ih =>
      rw [List.flatMap_cons, List.append_assoc, List.length_cons, readReqs,
        bind_ok ((f.reads halloc).whole _), bind_ok ih]
      rfl

/-- **The server reads frames, all of them, and nothing else**: whatever was sent, `n` requests
are read of it exactly if it begins with `n` frames, and they are the requests of these frames;
and as long as a byte of a frame is missing, nothing is made of it but that it is not there. -/
theorem request_grammar {alloc : Int32 → Bool} (halloc : ∀ n, 0 < n → alloc n = true) :
    (∀ n bs reqs rest, readReqs alloc n bs = .ok (reqs, rest) ↔
      ∃ fs : List ReqFrame, fs.length = n ∧ bs = fs.flatMap ReqFrame.bytes ++ rest ∧
        reqs = fs.map ReqFrame.req) ∧
      ∀ (f : ReqFrame) (bs more : List UInt8), f.bytes = bs ++ more → more ≠ [] →
        readReq alloc bs = .error .io :=
  ⟨fun _ _ _ _ => readReqs_iff halloc, fun f => (f.reads halloc).cut⟩

/-- A ping, as no client of this repository writes it: with another format, and a length for a
blob that is not there. -/
def oddPing : ReqFrame where
  format := 7
  clientId := 3
  seq := 1
  action := .num 0
  msg := []
  blobLen := 2147483653
  blob := []
  inDomain := Int32.le_refl 0
  length_msg := Nat.zero_le _
  length_blob := by decide

/-- A call with a blob of two bytes. -/
def blobCall : ReqFrame where
  format := 0
  clientId := 3
  seq := 2
  action := .str "calc.add"
  msg := [146, 1, 2]
  blobLen := 2
  blob := [8, 9]
  inDomain := (by decide +kernel : (ofStr "calc.add").length < 2 ^ 31)
  length_msg := by decide
  length_blob := by decide

/-- Both are read, and of the second alone nothing without its last byte. -/
theorem request_grammar_two :
    readReqs (fun _ => true) 2 (oddPing.bytes ++ blobCall.bytes) =
        .ok ([⟨1, .num 0, [], none⟩, ⟨2, .str "calc.add", [146, 1, 2], some [8, 9]⟩], []) ∧
      readReq (fun _ => true) (blobCall.bytes.take 44) = .error .io := by
  have halloc : ∀ n : Int32, 0 < n → (fun _ : Int32 => true) n = true := fun _ _ => rfl
  obtain ⟨hiff, hcut⟩ := request_grammar halloc
  refine ⟨(hiff _ _ _ _).mpr ⟨[oddPing, blobCall], rfl, ?_, rfl⟩, ?_⟩
  · rw [List.flatMap_cons, List.flatMap_cons, List.flatMap_nil, List.append_nil, List.append_nil]
  · exact hcut blobCall _ (blobCall.bytes.drop 44) (List.take_append_drop _ _).symm
      (by decide +kernel)

end RazorRpc
