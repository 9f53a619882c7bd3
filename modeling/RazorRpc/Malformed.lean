import RazorRpc.TcpClient

/-!
# Responses that are not well formed

`read_resp` believes the header of a response: the flag, the length of the message
and the length of the blob, which is signed. Most of what a header can say wrongly
ends in an error. Two things do not: a negative length of an error string, and a flag
that is none of the known ones. When nobody waits for the response, two others do not:
lengths whose sum is no `u32`, and a rest that is too long for a buffer, whose size is an
`i32`. And a number above that of every task sent is waited for.

* `Arrived`, `endsAfter` — the bytes that arrive before the stream ends;
* `Arrived.taken` — what `take_task` comes to;
* `RespHead.Readable`, `RespHead.Skippable`, `Harmless` — the headers that do no harm;
* `ReadSound` — `read_resp` returns, and whoever was taken has been completed.

The result is `readSound_iff`.
-/

namespace RazorRpc

open Prog

variable {B : Type}

/-! ## The stream -/

/-- What `read_resp` works on. -/
structure Arrived (B : Type) where
  /-- all that arrives before the stream ends -/
  input : List UInt8
  timer : ClientTaskTimer B
  /-- the registry after `take_task` has waited for a registration -/
  later : ClientTaskTimer B
  completed : List (Completion B)

namespace Arrived

/-- `read_exact`, an error beyond the end of the stream. -/
def read (n : ℕ) (s : Arrived B) : Arrived B × Option (List UInt8) :=
  if n ≤ s.input.length then ({ s with input := s.input.drop n }, some (s.input.take n))
  else ({ s with input := [] }, none)

/-- The header that comes first, if it is one. -/
def head? (s : Arrived B) : Option RespHead :=
  (s.read rpcRespHeaderLen).2.bind fun bs => (RespHead.decodeHead bs).toOption

/-- What `take_task` comes to; `none` while it waits. -/
def taken (s : Arrived B) (seq : UInt64) : Option (Option (Task B)) :=
  (s.timer.takeTask seq.toNat).2.or (s.later.resumeTakeTask seq.toNat).2

end Arrived

/-- Operations answered from a stream that ends. -/
def endsAfter : Handler (RecvOp B) RecvOp.Res (Arrived B)
  | .readHead _, s =>
    match s.read rpcRespHeaderLen with
    | (s, some bs) => (s, some (.ok bs))
    | (s, none) => (s, some .err)
  | .readExact n, s =>
    let r := s.read n
    (r.1, some r.2)
  | .takeTask seq, s =>
    let r := s.timer.takeTask seq.toNat
    ({ s with timer := r.1 }, some r.2)
  | .resumeTakeTask seq, s =>
    let r := s.later.resumeTakeTask seq.toNat
    ({ s with timer := r.1 }, r.2)
  | .done t, s => ({ s with completed := s.completed ++ [.done t] }, some ())
  | .errorHandle t, s => ({ s with completed := s.completed ++ [.errorHandled t] }, some ())
  | .dropItem, s => (s, some ())
  | .loadClosed, s => (s, none)
  | .storeClosed, s => (s, none)
  | .loadHasErr, s => (s, none)
  | .checkPendingTasksEmpty, s => (s, none)
  | .panic, s => (s, none)

/-! ## Parts that return -/

/-- Nothing was completed. -/
def Untouched (s : Arrived B) {α : Type} (_ : α) (s' : Arrived B) : Prop :=
  s'.completed = s.completed

/-- This task was completed, once. -/
def Completes (id : ℕ) (s : Arrived B) {α : Type} (_ : α) (s' : Arrived B) : Prop :=
  ∃ c : Completion B, c.id = id ∧ s'.completed = s.completed ++ [c]

section Sequence

variable {α β : Type} {p : Recv B α} {f : α → Recv B β} {s : Arrived B} {id : ℕ}

/-- First what completes nothing, then the task. -/
theorem Completes.after (hp : Returns endsAfter p s (Untouched s))
    (hf : ∀ a s', Returns endsAfter (f a) s' (Completes id s')) :
    Returns endsAfter (p >>= f) s (Completes id s) := by
  refine hp.bind fun a s' hsame => ?_
  obtain ⟨s'', b, hpoll, c, hid, hcompleted⟩ := hf a s'
  exact ⟨s'', b, hpoll, c, hid, hcompleted.trans (congrArg (· ++ [c]) hsame)⟩

/-- First the task, then what completes nothing. -/
theorem Completes.first (hp : Returns endsAfter p s (Completes id s))
    (hf : ∀ a s', Returns endsAfter (f a) s' (Untouched s')) :
    Returns endsAfter (p >>= f) s (Completes id s) := by
  refine hp.bind fun a s' ⟨c, hid, hcompleted⟩ => ?_
  obtain ⟨s'', b, hpoll, hsame⟩ := hf a s'
  exact ⟨s'', b, hpoll, c, hid, hsame.trans hcompleted⟩

end Sequence

theorem returns_readExact (n : ℕ) (s : Arrived B) :
    Returns endsAfter (Recv.readExact n) s (Untouched s) := by
  refine Returns.of_act rfl (Returns.of_ret ?_)
  rw [Untouched, Arrived.read]
  split <;> rfl

theorem returns_errorHandle (t : Task B) (s : Arrived B) :
    Returns endsAfter (Recv.errorHandle t) s (Completes t.id s) :=
  Returns.of_act rfl (Returns.of_ret ⟨.errorHandled t, rfl, rfl⟩)

theorem returns_done (t : Task B) (s : Arrived B) :
    Returns endsAfter (Recv.done t) s (Completes t.id s) :=
  Returns.of_act rfl (Returns.of_ret ⟨.done t, rfl, rfl⟩)

/-- A task is handed to `error_handle`, and that is the result. -/
theorem returns_fail {α : Type} (t : Task B) (a : α) (s : Arrived B) :
    Returns endsAfter (Recv.errorHandle t >>= fun _ => ret a) s (Completes t.id s) :=
  Completes.first (returns_errorHandle t s) fun _ _ => Returns.of_ret rfl

/-- What is skipped has a size that a buffer can have. -/
theorem returns_recvAndDump (pf : Platform) {l : ℕ} (hpos : 0 < Int32.ofNat l) (s : Arrived B) :
    Returns endsAfter (TcpClient.recvAndDump pf l) s (Untouched s) := by
  rw [TcpClient.recvAndDump_of_pos hpos]
  split
  · exact (returns_readExact _ s).bind fun r s' hsame => Returns.of_ret hsame
  · exact Returns.of_ret rfl

theorem returns_recvMsg (head : RespHead) (s : Arrived B) :
    Returns endsAfter (TcpClient.recvMsg head) s (Untouched s) := by
  rw [TcpClient.recvMsg]
  split
  · exact returns_readExact _ s
  · exact Returns.of_ret rfl

section Task

variable [ClientTask B]

theorem id_setErrString (task : Task B) (buf : List UInt8) :
    (TcpClient.setErrString task buf).id = task.id := by
  rw [TcpClient.setErrString]
  split
  · split <;> rfl
  · rfl

theorem returns_recvError {head : RespHead} (task : Task B) (s : Arrived B)
    (h : head.flag = respFlagHasErrno ∨ head.flag = respFlagHasErrString ∧ 0 ≤ head.blobLen) :
    Returns endsAfter (TcpClient.recvError head task) s (Completes task.id s) := by
  rw [TcpClient.recvError]
  rcases h with hflag | ⟨hflag, hlen⟩
  · rw [if_pos hflag]
    exact returns_fail (task.setCustomError (.num head.msgLen) 0 0) true s
  · have hne : head.flag ≠ respFlagHasErrno := by
      rw [hflag]
      decide
    rw [if_neg hne, if_pos hflag, if_neg (Int32.not_lt.mpr hlen)]
    refine Completes.after (returns_readExact _ s) fun r s' => ?_
    cases r with
    | none => exact returns_fail (task.setRpcError .io) false s'
    | some buf =>
      rw [← id_setErrString task buf]
      exact returns_fail (TcpClient.setErrString task buf) true s'

theorem returns_finishTask (head : RespHead) (task : Task B) (msg : List UInt8) (s : Arrived B) :
    Returns endsAfter (TcpClient.finishTask head task msg) s (Completes task.id s) := by
  rw [TcpClient.finishTask]
  split
  · rcases hdecode : task.decodeResp msg with ⟨task', ok⟩
    have hid : task'.id = task.id := congrArg (fun r => r.1.id) hdecode.symm
    rw [← hid]
    cases ok with
    | false => exact returns_fail (task'.setRpcError .decode) true s
    | true => exact Completes.first (returns_done task'.setOk s) fun _ _ => Returns.of_ret rfl
  · exact Completes.first (returns_done task.setOk s) fun _ _ => Returns.of_ret rfl

/-- A response to a task can be read: its flag is a known one, and the length of an error
string is not negative. -/
def RespHead.Readable (head : RespHead) : Prop :=
  head.flag = 0 ∨ head.flag = respFlagHasErrno ∨
    head.flag = respFlagHasErrString ∧ 0 ≤ head.blobLen

theorem returns_recvTask {pf : Platform} {head : RespHead} (task : Task B) (s : Arrived B)
    (h : head.Readable) :
    Returns endsAfter (TcpClient.recvTask pf head task) s (Completes task.id s) := by
  rw [TcpClient.recvTask]
  split
  · rename_i hpos
    refine returns_recvError task s (h.resolve_left fun hzero => ?_)
    rw [hzero] at hpos
    cases hpos
  · refine Completes.after (returns_recvMsg head s) fun r s' => ?_
    cases r with
    | none => exact returns_fail (task.setRpcError .io) false s'
    | some msg =>
      dsimp only
      split
      · rename_i hblob
        rcases hreserve : task.reserveRespBlob head.blobLen with ⟨task', len⟩
        have hid : task'.id = task.id := congrArg (fun r => r.1.id) hreserve.symm
        rw [← hid]
        cases len with
        | none =>
          have hsize : 0 < Int32.ofNat head.blobLen.toNatClampNeg := by
            rwa [Int32.ofNat_toNatClampNeg _ (Int32.le_of_lt hblob)]
          exact Completes.first (returns_errorHandle (task'.setRpcError .decode) s') fun _ s'' =>
            returns_recvAndDump pf hsize s''
        | some len =>
          refine Completes.after (returns_readExact len s') fun r s'' => ?_
          cases r with
          | none => exact returns_fail (task'.setRpcError .io) false s''
          | some blob => exact returns_finishTask head (task'.fillRespBlob blob) msg s''
      · exact returns_finishTask head task msg s'

end Task

/-! ## The whole of `read_resp` -/

/-- The sum of the two lengths is no `u32`, and the build checks arithmetic. -/
def Overflows (pf : Platform) (head : RespHead) : Prop :=
  head.flag = 0 ∧ pf.overflowChecks ∧
    2 ^ 32 ≤ head.msgLen.toNat + head.blobLen.toUInt32.toNat

/-- A response that nobody waits for can be skipped. It is read into a buffer, the size of
which is an `i32`. -/
def RespHead.Skippable (pf : Platform) (head : RespHead) : Prop :=
  ¬ Overflows pf head ∧ (TcpClient.dataLen head).toNat ≤ i32Max

/-- A response that does no harm, given what `take_task` comes to. -/
def Harmless (pf : Platform) (head : RespHead) : Option (Option (Task B)) → Prop
  -- it is for a number that nobody has registered
  | none => False
  | some none => head.Skippable pf
  | some (some _) => head.Readable

theorem returns_recvUnknown {pf : Platform} {head : RespHead} (h : head.Skippable pf)
    (s : Arrived B) : Returns endsAfter (TcpClient.recvUnknown pf head) s (Untouched s) := by
  obtain ⟨hsum, hmax⟩ := h
  rw [Overflows] at hsum
  rw [TcpClient.recvUnknown, if_neg hsum]
  split
  · rename_i hpos
    exact returns_recvAndDump pf ((ofNat_i32_pos hmax).mpr (UInt32.lt_iff_toNat_lt.mp hpos)) s
  · exact Returns.of_ret rfl

/-- The lengths add up to no `u32`, or to no size of a buffer. -/
theorem recvUnknown_panics {pf : Platform} {head : RespHead} (h : ¬ head.Skippable pf) :
    TcpClient.recvUnknown (B := B) pf head = Recv.panic := by
  rw [TcpClient.recvUnknown]
  by_cases hover : Overflows pf head
  · rw [Overflows] at hover
    rw [if_pos hover]
  · have hlong : i32Max < (TcpClient.dataLen head).toNat :=
      Nat.lt_of_not_le fun hle => h ⟨hover, hle⟩
    have hpos : 0 < TcpClient.dataLen head :=
      UInt32.lt_iff_toNat_lt.mpr (Nat.lt_of_le_of_lt (Nat.zero_le _) hlong)
    have hmax : (TcpClient.dataLen head).toNat ≤ u32Max :=
      Nat.le_of_lt_succ (TcpClient.dataLen head).toNat_lt
    rw [Overflows] at hover
    rw [if_neg hover, if_pos hpos, TcpClient.recvAndDump_of_not_pos]
    exact Int32.not_lt.mpr (Int32.le_of_lt (ofNat_i32_neg hlong hmax))

theorem poll_takeTask {s : Arrived B} {seq : UInt64} {found : Option (Task B)}
    (h : s.taken seq = some found) :
    ∃ s', poll endsAfter (Recv.takeTask seq) s = (s', ret found) ∧
      s'.completed = s.completed := by
  rw [Arrived.taken] at h
  rcases hfirst : (s.timer.takeTask seq.toNat).2 with _ | r
  · rw [hfirst, Option.none_or] at h
    refine ⟨{ s with timer := (s.later.resumeTakeTask seq.toNat).1 }, ?_, rfl⟩
    rw [Recv.takeTask]
    simp only [poll, endsAfter, hfirst, perform, h]
  · rw [hfirst, Option.some_or] at h
    cases h
    refine ⟨{ s with timer := (s.timer.takeTask seq.toNat).1 }, ?_, rfl⟩
    rw [Recv.takeTask]
    simp only [poll, endsAfter, hfirst]

theorem poll_takeTask_waits {s : Arrived B} {seq : UInt64} (h : s.taken seq = none) :
    ∃ s' k, poll endsAfter (Recv.takeTask seq) s = (s', act (.resumeTakeTask seq) k) := by
  rw [Arrived.taken, Option.or_eq_none_iff] at h
  refine ⟨{ s with timer := (s.later.resumeTakeTask seq.toNat).1 }, ret, ?_⟩
  rw [Recv.takeTask]
  simp only [poll, endsAfter, h.1, perform, h.2]

variable [ClientTask B]

/-- A task was found, and its response is neither `Ok` nor an error that can be read. -/
theorem recvTask_panics {pf : Platform} {head : RespHead} (task : Task B) (h : ¬ head.Readable) :
    TcpClient.recvTask pf head task = Recv.panic := by
  rw [RespHead.Readable, not_or, not_or, not_and] at h
  obtain ⟨hzero, herrno, hstring⟩ := h
  have hpos : 0 < head.flag := UInt8.pos_iff_ne_zero.mpr hzero
  rw [TcpClient.recvTask, if_pos hpos, TcpClient.recvError, if_neg herrno]
  by_cases hflag : head.flag = respFlagHasErrString
  · rw [if_pos hflag, if_pos (Int32.not_le.mp (hstring hflag))]
  · rw [if_neg hflag]

/-- What is left of `read_resp` after the body. -/
theorem returns_recvHead {pf : Platform} {head : RespHead} {s : Arrived B}
    {Q : Arrived B → Prop}
    (h : Returns endsAfter (TcpClient.recvRespBody pf head) s fun _ s' => Q s') :
    Returns endsAfter (TcpClient.recvHead pf (.ok head)) s fun _ s' => Q s' := by
  refine Returns.bind h fun ok s' hs' => ?_
  cases ok with
  | true => exact Returns.of_ret hs'
  | false => exact Returns.of_ret hs'

theorem not_returns_recvHead {pf : Platform} {head : RespHead} {s s' : Arrived B}
    {o : RecvOp B} {k : o.Res → Recv B Bool} {Q : Except RpcIntErr Bool → Arrived B → Prop}
    (h : poll endsAfter (TcpClient.recvRespBody pf head) s = (s', act o k)) :
    ¬ Returns endsAfter (TcpClient.recvHead pf (.ok head)) s Q :=
  not_returns_of_wait (poll_bind_wait h _)

/-- Nobody waits for the response. -/
theorem returns_recvHead_none (pf : Platform) {head : RespHead} {s : Arrived B}
    (htaken : s.taken head.seq = some none) {Q : Except RpcIntErr Bool → Arrived B → Prop}
    (hQ : ∀ r s', Q r s') :
    Returns endsAfter (TcpClient.recvHead pf (.ok head)) s Q ↔ head.Skippable pf := by
  obtain ⟨s', htake, -⟩ := poll_takeTask htaken
  by_cases hskips : head.Skippable pf
  · refine iff_of_true ?_ hskips
    obtain ⟨s'', a, hpoll, -⟩ := returns_recvUnknown hskips s'
    have hbody : Returns endsAfter (TcpClient.recvRespBody pf head) s fun _ _ => True :=
      ⟨s'', a, (poll_bind htake _).trans hpoll, trivial⟩
    obtain ⟨s₁, r, hpoll, -⟩ := returns_recvHead hbody
    exact ⟨s₁, r, hpoll, hQ r s₁⟩
  · refine iff_of_false ?_ hskips
    have hpanic : poll endsAfter (TcpClient.recvRespBody (B := B) pf head) s =
        (s', Recv.panic) := by
      rw [TcpClient.recvRespBody, poll_bind htake, TcpClient.recvFound, recvUnknown_panics hskips]
      rfl
    exact not_returns_recvHead hpanic

/-- A task waits for the response. -/
theorem returns_recvHead_some (pf : Platform) {head : RespHead} {s : Arrived B} {task : Task B}
    (htaken : s.taken head.seq = some (some task)) :
    Returns endsAfter (TcpClient.recvHead pf (.ok head)) s (Completes task.id s) ↔
      head.Readable := by
  obtain ⟨s', htake, hsame⟩ := poll_takeTask htaken
  constructor
  · intro hreturns
    by_contra hharmful
    have hpanic : ∃ k,
        poll endsAfter (TcpClient.recvRespBody pf head) s = (s', act .panic k) := by
      rw [TcpClient.recvRespBody, poll_bind htake, TcpClient.recvFound,
        recvTask_panics task hharmful]
      exact ⟨_, rfl⟩
    obtain ⟨k, hpanic⟩ := hpanic
    exact not_returns_recvHead hpanic hreturns
  · intro hharmless
    have hfound : Returns endsAfter (TcpClient.recvFound pf head (some task)) s'
        (Completes task.id s') :=
      Completes.first (returns_recvTask task s' hharmless) fun _ _ =>
        Returns.of_act rfl (Returns.of_ret rfl)
    obtain ⟨s'', a, hpoll, c, hid, hcompleted⟩ := hfound
    refine returns_recvHead (Q := fun s' => ∃ c : Completion B, c.id = task.id ∧
      s'.completed = s.completed ++ [c]) ⟨s'', a, (poll_bind htake _).trans hpoll, c, hid, ?_⟩
    rw [hcompleted, hsame]

/-- After the header, `read_resp` returns if it can. -/
theorem returns_recvHead_iff (pf : Platform) (head : RespHead) (s : Arrived B) :
    Returns endsAfter (TcpClient.recvHead pf (.ok head)) s (fun r s' =>
      ∀ task, s.taken head.seq = some (some task) → Completes task.id s r s') ↔
      Harmless pf head (s.taken head.seq) := by
  rcases htaken : s.taken head.seq with _ | _ | task
  · refine iff_of_false ?_ id
    obtain ⟨s', k, hwait⟩ := poll_takeTask_waits htaken
    exact not_returns_recvHead (poll_bind_wait hwait _)
  · exact returns_recvHead_none pf htaken fun _ _ => nofun
  · simp only [Option.some.injEq, forall_eq']
    exact returns_recvHead_some pf htaken

/-- `read_resp` returns, and the task it has taken is completed by then. -/
def ReadSound (pf : Platform) (closeCh : Bool) (s : Arrived B) : Prop :=
  Returns endsAfter (TcpClient.readResp pf closeCh) s fun r s' =>
    ∀ head ∈ s.head?, ∀ task, s.taken head.seq = some (some task) → Completes task.id s r s'

/-- **A malformed response is an error exactly if it is harmless.** Whatever arrives,
and whatever the registry: `read_resp` returns, with the task it has taken completed,
unless the bytes begin with a header that has one of these. A task is found, and the
flag is none of the three, or it announces a string of negative length. No task is
found, and the sum of the lengths overflows in a build that checks, or what there is to
skip is more than `i32::MAX` bytes long, which no buffer is. Or the number is not
registered, and `take_task` waits. -/
theorem readSound_iff (pf : Platform) (closeCh : Bool) (s : Arrived B) :
    ReadSound pf closeCh s ↔ ∀ head ∈ s.head?, Harmless pf head (s.taken head.seq) := by
  rcases hread : s.read rpcRespHeaderLen with ⟨s₁, _ | bs⟩
  · have hnone : s.head? = none := by
      rw [Arrived.head?, hread]
      rfl
    have hhead : endsAfter (.readHead closeCh) s = (s₁, some .err) := by
      simp only [endsAfter, hread]
    have hpoll : poll endsAfter (TcpClient.readResp (B := B) pf closeCh) s =
        (s₁, ret (.error .io)) := poll_act hhead _
    rw [ReadSound, hnone]
    exact iff_of_true ⟨s₁, .error .io, hpoll, nofun⟩ nofun
  · have hhead : endsAfter (.readHead closeCh) s = (s₁, some (.ok bs)) := by
      simp only [endsAfter, hread]
    -- reading a header leaves the registry alone
    have hsame : s₁.timer = s.timer ∧ s₁.later = s.later ∧ s₁.completed = s.completed := by
      rw [Arrived.read] at hread
      split at hread
      · cases hread
        exact ⟨rfl, rfl, rfl⟩
      · cases hread
    obtain ⟨htimer, hlater, hcompleted⟩ := hsame
    have hpoll : poll endsAfter (TcpClient.readResp (B := B) pf closeCh) s =
        poll endsAfter (TcpClient.recvHead pf (RespHead.decodeHead bs)) s₁ := poll_act hhead _
    rcases hdecode : RespHead.decodeHead bs with e | head
    · have hnone : s.head? = none := by
        rw [Arrived.head?, hread]
        simp only [Option.bind_some, hdecode]
        rfl
      rw [hdecode] at hpoll
      rw [ReadSound, hnone]
      exact iff_of_true ⟨s₁, .error e, hpoll, nofun⟩ nofun
    · have hsome : s.head? = some head := by
        rw [Arrived.head?, hread]
        simp only [Option.bind_some, hdecode]
        rfl
      have htaken : s₁.taken head.seq = s.taken head.seq := by
        rw [Arrived.taken, Arrived.taken, htimer, hlater]
      have hrest := returns_recvHead_iff pf head s₁
      rw [hdecode] at hpoll
      rw [ReadSound, Returns, hpoll, hsome]
      simp only [Option.mem_some_iff, forall_eq', Completes, ← hcompleted, ← htaken]
      exact hrest

/-- A task that waits for response 1. -/
def waitingFirst : ClientTaskTimer APIClientReq :=
  { ClientTaskTimer.new 20 128 with
    sentTasks := BTreeMap.empty.insert 1 ⟨0, 1, .new "Calc.inc" [0xc0]⟩
    processedSeq := 1 }

/-- A response with this header and no body, while task 1 waits. -/
def bareHead (head : RespHead) : Arrived APIClientReq :=
  ⟨head.toBytes, waitingFirst, waitingFirst, []⟩

/-- The receiver panics over an unknown flag, over an error string of negative length,
and, when nobody waits for the response, over lengths that add up to 4 GiB, over an error
string of negative length and over a message of 2 GiB. -/
theorem bare_heads_panic :
    ¬ ReadSound ⟨fun _ => true, true⟩ true (bareHead (RespHead.new 3 1 0 0)) ∧
      ¬ ReadSound ⟨fun _ => true, true⟩ true (bareHead (RespHead.new 2 1 0 (-1))) ∧
      ¬ ReadSound ⟨fun _ => true, true⟩ true (bareHead (RespHead.new 0 0 4294967295 1)) ∧
      ¬ ReadSound ⟨fun _ => true, true⟩ true (bareHead (RespHead.new 2 0 0 (-1))) ∧
      ¬ ReadSound ⟨fun _ => true, true⟩ true (bareHead (RespHead.new 0 0 2147483648 0)) :=
  ⟨not_returns (by decide +kernel), not_returns (by decide +kernel),
    not_returns (by decide +kernel), not_returns (by decide +kernel),
    not_returns (by decide +kernel)⟩

end RazorRpc
