import RazorRpc.Age
import RazorRpc.Answer
import RazorRpc.ConnInv

/-!
# After the stream is dropped

"The response reader coroutine will not exit until all the ClientTasks have a
response or after `task_timeout` is reached" (`ClientStream`). Once `closed` is
found set, the header of the next response is read with the `read_timeout` of the
transport, and a time-out there is an error like any other: the receiver leaves,
and whatever is registered fails with `IO`. The rest of the machinery does what
the sentence says.

* `Diary` — what a run has seen: ticks, registrations and headers;
* `parting` — a call of the sender that closes the connection registers nothing
  any more;
* `Sys.Lingering` — the invariant: the receiver only leaves an empty registry.

The result is `registered_lingers`.
-/

namespace RazorRpc

open Prog ClientStream

variable {B : Type}

/-! ## The diary -/

/-- What a run has seen. -/
structure Diary where
  ticks : ℕ
  /-- the number of ticks when a task was registered -/
  since : ℕ → ℕ
  /-- the headers read -/
  heads : List RespHead

/-- The header an operation of the receiver reads. -/
def RecvOp.headRead : RecvOp B → Arrival → Option RespHead
  | .readHead _, .bytes bs =>
    if bs.length = rpcRespHeaderLen then (RespHead.decodeHead bs).toOption else none
  | _, _ => none

namespace Diary

def empty : Diary := ⟨0, fun _ => 0, []⟩

def update (x : Diary) (s : Sys B) : Label B → Diary
  | .sender _ =>
    match s.sender with
    | .running _ (.act (.regTask t) _) => { x with since := Function.update x.since t.id x.ticks }
    | _ => x
  | .receiver tick arrival =>
    match s.receiver with
    | .future .ticking _ => if tick then { x with ticks := x.ticks + 1 } else x
    | .future .polling (.act o _) => { x with heads := x.heads ++ (o.headRead arrival).toList }
    | _ => x
  | _ => x

variable [ClientTask B]

/-- The task got a response whose header was read. -/
def Answered (x : Diary) (d : Completion B) : Prop :=
  ∃ (r : Resp) (task : Task B), r.head ∈ x.heads ∧ r.seq = task.seq ∧ d = r.body.complete task

/-- The task was failed with `Timeout`, after `taskTimeout` seconds at least. -/
def TimedOut (x : Diary) (taskTimeout : ℕ) (d : Completion B) : Prop :=
  ∃ task : Task B, d = .errorHandled (task.setRpcError .timeout) ∧
    x.since task.id + taskTimeout < x.ticks

def Ended (x : Diary) (taskTimeout : ℕ) (d : Completion B) : Prop :=
  x.Answered d ∨ x.TimedOut taskTimeout d

theorem Ended.mono {x x' : Diary} {taskTimeout : ℕ} {d : Completion B} (h : x.Ended taskTimeout d)
    (hticks : x.ticks ≤ x'.ticks) (hsince : x'.since d.id = x.since d.id)
    (hheads : x.heads ⊆ x'.heads) : x'.Ended taskTimeout d := by
  rcases h with ⟨r, task, hhead, hseq, rfl⟩ | ⟨task, rfl, hlt⟩
  · exact Or.inl ⟨r, task, hheads hhead, hseq, rfl⟩
  · have hsince : x'.since task.id = x.since task.id := hsince
    refine Or.inr ⟨task, rfl, ?_⟩
    rw [hsince]
    exact Nat.lt_of_lt_of_le hlt hticks

end Diary

/-! ## The sender -/

/-- What a call does to the connection. -/
structure Parting where
  /-- it closes the connection, or has closed it -/
  quit : Bool
  /-- it has set `has_err`, or the socket has failed it -/
  err : Bool

def parting : Protocol (SendOp B) SendOp.Res Parting where
  ok y o := y.err = true ∨
    match o with
    | .regTask _ => y.quit = false
    | .dropCloseTx => y.quit = true
    | _ => True
  next y
    | .storeClosed, _ => { y with quit := true }
    | .storeHasErr, _ => { y with err := true }
    | .writeAll _, ok => { y with err := y.err || !ok }
    | .flush, ok => { y with err := y.err || !ok }
    | _, _ => y

/-- A call that closes the connection sets `has_err`, unless it is the drop. -/
def Parting.CanEnd (dropping : Bool) (y : Parting) : Prop :=
  y.quit = true → y.err = true ∨ dropping = true

/-- After an error, anything goes. -/
theorem parting_of_err {α : Type} {post : α → Parting → Prop}
    (hpost : ∀ a y, y.err = true → post a y) {y : Parting} (h : y.err = true) (p : Send B α) :
    Follows parting post y p := by
  refine Follows.of_closed (C := fun y : Parting => y.err = true) (fun y o h => Or.inl h)
    (fun y o r h => ?_) hpost h p
  cases o with
  | storeHasErr => rfl
  | writeAll _ => exact Bool.or_eq_true_iff.mpr (Or.inl h)
  | flush => exact Bool.or_eq_true_iff.mpr (Or.inl h)
  | _ => exact h

/-- A request is written, or the socket fails. -/
theorem parting_writeReq (y : Parting) (buf : List UInt8) (blob : Option (List UInt8))
    (needFlush : Bool) :
    Follows (parting (B := B)) (fun ok y' => y'.err = true ∨ ok = true ∧ y' = y) y
      (TcpClient.writeReq buf blob needFlush) := by
  obtain ⟨quit, err⟩ := y
  cases err with
  | true => exact parting_of_err (fun _ _ h => Or.inl h) rfl _
  | false =>
    have hfail : ∀ p : Send B Bool, Follows parting
        (fun ok y' => y'.err = true ∨ ok = true ∧ y' = ⟨quit, false⟩) ⟨quit, true⟩ p :=
      fun p => parting_of_err (fun _ _ h => Or.inl h) rfl p
    have hblob : Follows (parting (B := B)) (fun ok y' => y'.err = true ∨ ok = true ∧
        y' = ⟨quit, false⟩) ⟨quit, false⟩ (TcpClient.writeBlob blob) := by
      cases blob with
      | none => exact Or.inr ⟨rfl, rfl⟩
      | some blob =>
        refine ⟨Or.inr trivial, fun wrote => ?_⟩
        cases wrote with
        | false => exact hfail _
        | true => exact Or.inr ⟨rfl, rfl⟩
    refine ⟨Or.inr trivial, fun wrote => ?_⟩
    cases wrote with
    | false => exact hfail _
    | true =>
      refine hblob.bind fun wroteBlob y' hy => ?_
      rcases hy with herr | ⟨rfl, rfl⟩
      · exact parting_of_err (fun _ _ h => Or.inl h) herr _
      · cases needFlush with
        | false => exact Or.inr ⟨rfl, rfl⟩
        | true =>
          refine ⟨Or.inr trivial, fun ok => ?_⟩
          cases ok with
          | false => exact hfail _
          | true => exact Or.inr ⟨rfl, rfl⟩

variable [ClientTask B]

theorem parting_sendRequest (clientId : UInt64) (task : Task B) (needFlush : Bool) :
    Follows parting (fun _ y => y.err = true ∨ y = ⟨false, false⟩) ⟨false, false⟩
      (sendRequest clientId task needFlush) := by
  refine ⟨Or.inr trivial, fun seq => ⟨Or.inr trivial, fun buf => ⟨Or.inr trivial, fun _ => ?_⟩⟩⟩
  change Follows parting _ ⟨false, false⟩
    (writeEncoded _ _ needFlush (ReqHead.encode buf clientId (task.setSeq seq)).2)
  rcases (ReqHead.encode buf clientId (task.setSeq seq)).2 with _ | blob
  · exact Or.inr rfl
  · refine (parting_writeReq _ _ _ _).bind fun wrote y hy => ?_
    rcases hy with herr | ⟨rfl, rfl⟩
    · exact parting_of_err (fun _ _ h => Or.inl h) herr _
    · exact ⟨Or.inr trivial, fun _ => ⟨Or.inr rfl, fun _ => Or.inr rfl⟩⟩

/-- Only the drop closes the connection and is content. -/
theorem parting_program (cfg : ConnConfig) (id : ℕ) {call : Call B} (hcall : call ≠ .drop) :
    Follows parting (fun _ y => y.CanEnd false) ⟨false, false⟩ (Sys.program cfg id call) := by
  have herr : ∀ {α : Type} (_ : α) (y : Parting), y.err = true → y.CanEnd false :=
    fun _ _ h _ => Or.inl h
  cases call with
  | sendTask t needFlush =>
    refine ⟨Or.inr trivial, fun full => ⟨Or.inr trivial, fun _ => ⟨Or.inr trivial, fun closed => ?_⟩⟩⟩
    cases closed with
    | true => exact ⟨Or.inr trivial, fun _ => ⟨Or.inr trivial, fun _ => Bool.noConfusion⟩⟩
    | false =>
      change Follows parting _ _ (sendRequest cfg.clientId { t with id } _ >>= finishSend)
      refine (parting_sendRequest cfg.clientId _ _).bind fun r y hy => ?_
      rcases hy with hy | rfl
      · exact parting_of_err herr hy _
      · cases r with
        | error e => exact ⟨Or.inr trivial, fun _ => ⟨Or.inr trivial, fun _ _ => Or.inl rfl⟩⟩
        | ok _ => exact ⟨Or.inr trivial, fun _ => Bool.noConfusion⟩
  | flushReq =>
    refine ⟨Or.inr trivial, fun ok => ?_⟩
    cases ok with
    | true => exact Bool.noConfusion
    | false => exact parting_of_err herr rfl _
  | ping =>
    refine ⟨Or.inr trivial, fun closed => ?_⟩
    cases closed with
    | true => exact Bool.noConfusion
    | false =>
      refine ⟨Or.inr trivial, fun seq => ⟨Or.inr trivial, fun buf => ⟨Or.inr trivial, fun _ => ?_⟩⟩⟩
      change Follows parting _ ⟨false, false⟩ (TcpClient.writeReq _ none true >>= _)
      refine (parting_writeReq _ _ _ _).bind fun wrote y hy => ?_
      rcases hy with hy | ⟨rfl, rfl⟩
      · exact parting_of_err herr hy _
      · exact Bool.noConfusion
  | setErrorAndExit =>
    exact ⟨Or.inr trivial, fun _ => parting_of_err herr rfl _⟩
  | drop => exact absurd rfl hcall

omit [ClientTask B] in
theorem parting_dropStream :
    Follows (parting (B := B)) (fun _ y => y.CanEnd true) ⟨true, false⟩ dropStream :=
  ⟨Or.inr rfl, fun _ => ⟨Or.inr trivial, fun _ => ⟨Or.inr trivial, fun _ _ => Or.inr rfl⟩⟩⟩

/-- The connection is closed, or is being closed, only by a call that registers
nothing any more; after an error the rest does not matter. -/
def Sender.Parts (c : Conn B) : Sender B → Prop
  | .idle => c.closed = true ∨ c.closeTx = false → c.hasErr = true
  | .running dropping p => ∃ y : Parting, Follows parting (fun _ y => y.CanEnd dropping) y p ∧
      (y.err = true → c.hasErr = true) ∧ (c.closed = true ∨ c.closeTx = false → y.quit = true)
  | .gone => True

/-! ## The receiver -/

/-- The receive future is there. -/
def Receiver.isReceiving : Receiver B → Bool
  | .future _ _ => true
  | _ => false

/-- The operation the receive future is at. -/
def Receiver.op : Receiver B → Option (RecvOp B)
  | .future .polling (.act o _) => some o
  | _ => none

/-- What arrives is no error, except that the header of a response may be late once
the connection is closed; and a header that arrives is one of a response. -/
def RecvOp.undisturbed : RecvOp B → Arrival → Bool
  | .readHead cancellable, .error => !cancellable
  | .readHead _, .bytes bs =>
    if bs.length = rpcRespHeaderLen then
      match RespHead.decodeHead bs with
      | .ok head => decide head.Regular
      | .error _ => false
    else true
  | .readExact _, .error => false
  | _, _ => true

/-- No header is late while tasks wait. -/
def RecvOp.patient (c : Conn B) : RecvOp B → Arrival → Bool
  | .readHead _, .error => c.timer.live.isEmpty
  | _, _ => true

/-- How far the receive future has come fits the connection. -/
structure Answering.Fits (y : Answering B) (c : Conn B) (heads : List RespHead) : Prop where
  excused : y.excused = false
  head : ∀ head ∈ y.head, head.Regular ∧ head ∈ heads ∧ y.read.length ≤ head.bodyLen
  task : ∀ task ∈ y.task, ∃ head ∈ y.head, head.seq = task.seq
  sawClosed : y.sawClosed = true → c.closed = true
  fired : y.fired = true → c.closeTx = false
  leaving : y.leaving = true → c.closed = true ∧ c.timer.live = []

namespace Answering.Fits

variable {y : Answering B} {c c' : Conn B} {heads : List RespHead}

/-- A task is completed by the response that is being read. -/
theorem answered (h : y.Fits c heads) {d : Completion B} (hd : y.Answers d) (x : Diary)
    (hheads : x.heads = heads) : x.Answered d := by
  obtain ⟨head, hhead, task, htask, hd⟩ := hd
  obtain ⟨hreg, hmem, hlen⟩ := h.head head hhead
  -- the rest of the response may be anything
  have hfull : (y.read ++ List.replicate (head.bodyLen - y.read.length) 0).length =
      head.bodyLen := by
    rw [List.length_append, List.length_replicate]
    omega
  obtain ⟨r, hr, hpayload⟩ := hreg.exists_resp hfull
  obtain ⟨head', hhead', hseq⟩ := h.task task htask
  obtain rfl : head = head' := Option.some.inj (hhead.symm.trans hhead')
  refine ⟨r, task, ?_, ?_, hd r hr ?_⟩
  · rw [hr, hheads]
    exact hmem
  · rw [← r.head_seq, hr, hseq]
  · rw [hpayload]
    exact List.prefix_append _ _

omit [ClientTask B] in
/-- The rest of the connection may change. -/
theorem congr (h : y.Fits c heads) (hclosed : c.closed = true → c'.closed = true)
    (hcloseTx : c.closeTx = false → c'.closeTx = false)
    (hlive : c.closed = true → c.timer.live = [] → c'.timer.live = []) : y.Fits c' heads := by
  refine ⟨h.excused, h.head, h.task, fun hy => hclosed (h.sawClosed hy),
    fun hy => hcloseTx (h.fired hy), fun hy => ?_⟩
  obtain ⟨hc, hnil⟩ := h.leaving hy
  exact ⟨hclosed hc, hlive hc hnil⟩

end Answering.Fits

namespace RecvOp

variable {c c' : Conn B} {arrival : Arrival} {o : RecvOp B}

omit [ClientTask B] in
/-- What else the receiver's operations leave alone. -/
theorem exec_shared {a : Option o.Res} (h : exec arrival o c = (c', a)) :
    c'.closeTx = c.closeTx ∧ c'.hasErr = c.hasErr ∧ c'.registered = c.registered ∧
      (c.closed = true → c'.closed = true) ∧
      (c'.closed = true → c.closed = true ∨ o = .storeClosed) := by
  obtain rfl : (exec arrival o c).1 = c' := congrArg Prod.fst h
  cases o with
  | readHead cancellable =>
    rw [exec_readHead]
    exact ⟨rfl, rfl, rfl, id, Or.inl⟩
  | readExact n =>
    rw [exec_readExact]
    exact ⟨rfl, rfl, rfl, id, Or.inl⟩
  | storeClosed => exact ⟨rfl, rfl, rfl, fun _ => rfl, fun _ => Or.inr rfl⟩
  | _ => exact ⟨rfl, rfl, rfl, id, Or.inl⟩

/-- No task comes into the registry. -/
theorem exec_live (inv : c.Inv) {a : Option o.Res} (h : exec arrival o c = (c', a)) :
    c'.timer.live ⊆ c.timer.live := by
  obtain ⟨hi, inv, -⟩ := inv.timer
  obtain rfl : (exec arrival o c).1 = c' := congrArg Prod.fst h
  cases o with
  | readHead cancellable =>
    rw [exec_readHead]
    exact List.Subset.refl _
  | readExact n =>
    rw [exec_readExact]
    exact List.Subset.refl _
  | checkPendingTasksEmpty => exact (List.Perm.of_eq inv.checkPendingTasksEmpty.2).subset
  | takeTask seq => exact (inv.takeTask seq.toNat).2.subset
  | resumeTakeTask seq => exact (inv.resumeTakeTask seq.toNat).2.subset
  | _ => exact List.Subset.refl _

omit [ClientTask B] in
/-- Only a header that arrived in full is read. -/
theorem headRead_of_waits (h : exec arrival o c = (c', none)) : o.headRead arrival = none := by
  cases o with
  | readHead cancellable =>
    cases arrival with
    | nothing | error => rfl
    | bytes bs =>
      have hlen : ¬ bs.length = rpcRespHeaderLen := fun hlen => by
        simp only [exec, if_pos hlen] at h
        cases h
      rw [headRead, if_neg hlen]
  | _ => rfl

/-- The response that is being read completes its task, and nothing else does. -/
theorem exec_completed {y : Answering B} (hexcused : y.excused = false) (hok : answering.ok y o)
    {a : Option o.Res} (h : exec arrival o c = (c', a)) :
    ∀ d ∈ c'.completed, d ∈ c.completed ∨ y.Answers d := by
  obtain rfl : (exec arrival o c).1 = c' := congrArg Prod.fst h
  have hok := hok.resolve_left (by rw [hexcused]; exact Bool.noConfusion)
  intro d hd
  cases o with
  | readHead cancellable =>
    rw [exec_readHead] at hd
    exact Or.inl hd
  | readExact n =>
    rw [exec_readExact] at hd
    exact Or.inl hd
  | done t =>
    rcases List.mem_append.mp hd with hd | hd
    · exact Or.inl hd
    · rw [List.mem_singleton.mp hd]
      exact Or.inr hok
  | errorHandle t =>
    rcases List.mem_append.mp hd with hd | hd
    · exact Or.inl hd
    · rw [List.mem_singleton.mp hd]
      exact Or.inr hok
  | _ => exact Or.inl hd

variable {y : Answering B} {heads : List RespHead}

/-- A header arrives, is late, or the close channel fires. -/
theorem fits_readHead {cancellable : Bool} (hfits : y.Fits c heads)
    (hok : answering.ok y (.readHead cancellable))
    (hcalm : undisturbed (.readHead cancellable : RecvOp B) arrival = true)
    (hpatient : patient c (.readHead cancellable) arrival = true) {a : HeadRead}
    (h : exec arrival (.readHead cancellable) c = (c', some a)) :
    (y.readHead cancellable a).Fits c'
      (heads ++ ((.readHead cancellable : RecvOp B).headRead arrival).toList) := by
  obtain rfl : c = c' := (exec_readHead arrival cancellable c).symm.trans (congrArg Prod.fst h)
  obtain ⟨hwhole, hclosed⟩ := hok.resolve_left (by rw [hfits.excused]; exact Bool.noConfusion)
  cases arrival with
  | nothing =>
    have hfired : (cancellable && !c.closeTx) = true ∧ a = .closed := by
      simp only [exec] at h
      split at h
      · rename_i hfired
        cases h
        exact ⟨hfired, rfl⟩
      · cases h
    obtain ⟨hfired, rfl⟩ := hfired
    rw [Bool.and_eq_true, Bool.not_eq_true'] at hfired
    have hheads : heads ++ ((.readHead cancellable : RecvOp B).headRead .nothing).toList = heads :=
      List.append_nil _
    rw [hheads]
    exact ⟨hfits.excused, hfits.head, hfits.task, hfits.sawClosed, fun _ => hfired.2,
      hfits.leaving⟩
  | error =>
    obtain rfl : cancellable = false := by simpa [undisturbed] using hcalm
    obtain rfl : a = .err := by
      cases h
      rfl
    have hheads : heads ++ ((.readHead false : RecvOp B).headRead .error).toList = heads :=
      List.append_nil _
    rw [hheads]
    exact ⟨hfits.excused, hfits.head, hfits.task, hfits.sawClosed, hfits.fired,
      fun _ => ⟨hfits.sawClosed (hclosed rfl), List.isEmpty_iff.mp hpatient⟩⟩
  | bytes bs =>
    have hlen : bs.length = rpcRespHeaderLen ∧ a = .ok bs := by
      simp only [exec] at h
      split at h
      · rename_i hlen
        cases h
        exact ⟨hlen, rfl⟩
      · cases h
    obtain ⟨hlen, rfl⟩ := hlen
    rw [undisturbed, if_pos hlen] at hcalm
    rw [headRead, if_pos hlen, Answering.readHead]
    rcases hdecode : RespHead.decodeHead bs with e | head
    · rw [hdecode] at hcalm
      cases hcalm
    · rw [hdecode] at hcalm
      have hreg : head.Regular := of_decide_eq_true hcalm
      dsimp only
      rw [if_pos hreg]
      refine ⟨hfits.excused, ?_, ?_, hfits.sawClosed, hfits.fired, hfits.leaving⟩
      · intro head' hhead'
        obtain rfl := Option.some.inj hhead'
        exact ⟨hreg, List.mem_append_right _ (List.mem_singleton_self _), Nat.zero_le _⟩
      · rintro task ⟨⟩

omit [ClientTask B] in
/-- The answer of `take_task` is the task asked for. -/
theorem fits_take (hfits : y.Fits c heads) {seq : UInt64} (hfresh : y.Fresh seq)
    {timer : ClientTaskTimer B} {found : Option (Task B)}
    (htakes : ClientTaskTimer.Takes seq.toNat c.timer (timer, some found))
    (hclosed : c'.closed = c.closed) (hcloseTx : c'.closeTx = c.closeTx)
    (htimer : c'.timer = timer) : (y.take seq found).Fits c' heads := by
  have hseq : ∀ task ∈ found, task.seq = seq := fun task htask => by
    obtain rfl : found = some task := htask
    exact UInt64.toNat_inj.mp htakes.1
  have hall : (found.all (·.seq = seq)) = true := by
    rcases found with _ | task
    · rfl
    · exact decide_eq_true (hseq task rfl)
  have hlive : timer.live ⊆ c.timer.live := htakes.subset
  obtain ⟨-, -, head, hhead, hheadSeq⟩ := hfresh
  rw [Answering.take, if_pos hall]
  refine ⟨hfits.excused, hfits.head, fun task htask => ⟨head, hhead, ?_⟩, ?_, ?_, ?_⟩
  · rw [hheadSeq, hseq task htask]
  · rw [hclosed]
    exact hfits.sawClosed
  · rw [hcloseTx]
    exact hfits.fired
  · intro hleaving
    obtain ⟨hc, hnil⟩ := hfits.leaving hleaving
    rw [hclosed, htimer]
    rw [hnil] at hlive
    exact ⟨hc, List.subset_nil.mp hlive⟩

/-- An operation of the receiver that is answered. -/
theorem fits_exec (inv : c.Inv) (herr : c.hasErr = false) (hfits : y.Fits c heads)
    (hok : answering.ok y o) (hcalm : o.undisturbed arrival = true)
    (hpatient : o.patient c arrival = true) {a : o.Res} (h : exec arrival o c = (c', some a)) :
    (answering.next y o a).Fits c' (heads ++ (o.headRead arrival).toList) := by
  obtain ⟨hi, htimer, -⟩ := inv.timer
  have hlive := exec_live inv h
  obtain ⟨hcloseTx, -, -, hclosed, -⟩ := exec_shared h
  -- the record does not change, or only in what the response is about
  have hsame : y.Fits c' heads := hfits.congr hclosed (fun h => hcloseTx.trans h) fun _ hnil => by
    rw [hnil] at hlive
    exact List.subset_nil.mp hlive
  have hexcused : ¬ y.excused = true := by
    rw [hfits.excused]
    exact Bool.noConfusion
  by_cases hhead : ∃ cancellable, o = .readHead cancellable
  · obtain ⟨cancellable, rfl⟩ := hhead
    exact fits_readHead hfits hok hcalm hpatient h
  have hheads : heads ++ (o.headRead arrival).toList = heads := by
    cases o with
    | readHead cancellable => exact absurd ⟨cancellable, rfl⟩ hhead
    | _ => exact List.append_nil _
  rw [hheads]
  have hok := hok.resolve_left hexcused
  cases o with
  | readHead cancellable => exact absurd ⟨cancellable, rfl⟩ hhead
  | loadClosed =>
    cases h
    exact ⟨hfits.excused, hfits.head, hfits.task, id, hfits.fired, hfits.leaving⟩
  | loadHasErr =>
    obtain rfl : c.hasErr = a := Option.some.inj (congrArg Prod.snd h)
    change Answering.Fits (if c.hasErr = true then y.excuse else y) c' heads
    rw [herr]
    exact hsame
  | checkPendingTasksEmpty =>
    have hsaw : y.sawClosed = true := hok
    cases h
    refine ⟨hfits.excused, hfits.head, hfits.task, hfits.sawClosed, hfits.fired, fun hempty => ?_⟩
    exact ⟨hfits.sawClosed hsaw, ClientTaskTimer.live_checkPendingTasksEmpty hempty⟩
  | readExact n =>
    obtain ⟨head, hhead, hlen⟩ := hok
    cases arrival with
    | nothing => cases h
    | error => cases hcalm
    | bytes bs =>
      have hbs : bs.length = n ∧ a = some bs := by
        simp only [exec] at h
        split at h
        · rename_i hbs
          cases h
          exact ⟨hbs, rfl⟩
        · cases h
      obtain ⟨hbs, rfl⟩ := hbs
      change (y.readExact n (some bs)).Fits c' heads
      rw [Answering.readExact, if_pos hbs]
      refine ⟨hsame.excused, fun head' hhead' => ?_, hsame.task, hsame.sawClosed, hsame.fired,
        hsame.leaving⟩
      obtain rfl : head = head' := Option.some.inj (hhead.symm.trans hhead')
      obtain ⟨hreg, hmem, -⟩ := hfits.head head hhead
      refine ⟨hreg, hmem, ?_⟩
      rw [List.length_append, hbs]
      exact hlen
  | takeTask seq =>
    have hfound : (c.timer.takeTask seq.toNat).2 = a := Option.some.inj (congrArg Prod.snd h)
    have htakes : ClientTaskTimer.Takes seq.toNat c.timer
        ((c.timer.takeTask seq.toNat).1, (c.timer.takeTask seq.toNat).2) :=
      (htimer.takeTask seq.toNat).2
    cases a with
    | none => exact hsame
    | some found =>
      rw [hfound] at htakes
      obtain rfl : _ = c' := congrArg Prod.fst h
      exact fits_take hfits hok htakes rfl rfl rfl
  | resumeTakeTask seq =>
    have hfound : (c.timer.resumeTakeTask seq.toNat).2 = some a := congrArg Prod.snd h
    have htakes : ClientTaskTimer.Takes seq.toNat c.timer
        ((c.timer.resumeTakeTask seq.toNat).1, (c.timer.resumeTakeTask seq.toNat).2) :=
      (htimer.resumeTakeTask seq.toNat).2
    rw [hfound] at htakes
    obtain rfl : _ = c' := congrArg Prod.fst h
    exact fits_take hfits hok htakes rfl rfl rfl
  | done t | errorHandle t =>
    refine ⟨hsame.excused, hsame.head, ?_, hsame.sawClosed, hsame.fired, hsame.leaving⟩
    rintro task ⟨⟩
  | storeClosed | dropItem => exact hsame
  | panic => cases a

end RecvOp

/-- The receive future can only leave an empty registry, and nothing else ends. -/
def Receiver.Lingers (c : Conn B) (heads : List RespHead) : Receiver B → Prop
  | .future _ p =>
    ∃ y : Answering B, y.Fits c heads ∧ Follows answering Answering.Ends y p
  | .panicked => False
  | _ => c.closed = true ∧ c.timer.live = []

theorem Receiver.Lingers.congr {c c' : Conn B} {heads : List RespHead} {r : Receiver B}
    (h : r.Lingers c heads) (hclosed : c.closed = true → c'.closed = true)
    (hcloseTx : c.closeTx = false → c'.closeTx = false)
    (hlive : c.closed = true → c.timer.live = [] → c'.timer.live = []) : r.Lingers c' heads := by
  cases r with
  | future stage p =>
    obtain ⟨y, hfits, hfollows⟩ := h
    exact ⟨y, hfits.congr hclosed hcloseTx hlive, hfollows⟩
  | panicked => exact h
  | failed | cleaning | draining | sleeping | returned =>
    obtain ⟨hc, hnil⟩ := h
    exact ⟨hclosed hc, hlive hc hnil⟩

/-! ## The sender's operations -/

omit [ClientTask B] in
theorem Sender.Parts.congr {c c' : Conn B} {p : Sender B} (h : p.Parts c)
    (herr : c'.hasErr = c.hasErr)
    (hclosed : c'.closed = true ∨ c'.closeTx = false → c.closed = true ∨ c.closeTx = false) :
    p.Parts c' := by
  cases p with
  | idle =>
    intro hc
    rw [herr]
    exact h (hclosed hc)
  | running dropping p =>
    obtain ⟨y, hfollows, hy, hquit⟩ := h
    refine ⟨y, hfollows, ?_, fun hc => hquit (hclosed hc)⟩
    rw [herr]
    exact hy
  | gone => trivial

section SendOps

variable {c c' : Conn B} {o : SendOp B} {a : o.Res}

omit [ClientTask B] in
/-- A call that is not failed by the socket or by `has_err`. -/
theorem SendOp.parts_exec {y : Parting} (hnoErr : c.hasErr = false)
    (hy : y.err = true → c.hasErr = true) (hquit : c.closed = true ∨ c.closeTx = false → y.quit = true)
    (hok : parting.ok y o) (h : SendOp.exec true o c = (c', some a)) :
    ((parting.next y o a).err = true → c'.hasErr = true) ∧
      (c'.closed = true ∨ c'.closeTx = false → (parting.next y o a).quit = true) := by
  have hok := hok.resolve_left fun herr => by
    rw [hnoErr] at hy
    cases hy herr
  cases o with
  | regTask t =>
    obtain ⟨timer, -, rfl⟩ := SendOp.exec_regTask h
    exact ⟨hy, hquit⟩
  | throttle =>
    obtain rfl := SendOp.exec_throttle h
    exact ⟨hy, hquit⟩
  | storeClosed =>
    cases h
    exact ⟨hy, fun _ => rfl⟩
  | storeHasErr =>
    cases h
    exact ⟨fun _ => rfl, hquit⟩
  | dropCloseTx =>
    cases h
    exact ⟨hy, fun _ => hok⟩
  | writeAll _ | flush =>
    cases h
    refine ⟨fun herr => hy ?_, hquit⟩
    rw [← Bool.or_false y.err]
    exact herr
  | _ =>
    cases h
    exact ⟨hy, hquit⟩

omit [ClientTask B] in
/-- The connection does not open again, and `has_err` stays. -/
theorem SendOp.exec_closes {ok : Bool} (h : SendOp.exec ok o c = (c', some a)) :
    (c.closed = true → c'.closed = true) ∧ (c.closeTx = false → c'.closeTx = false) := by
  cases o with
  | regTask t =>
    obtain ⟨timer, -, rfl⟩ := SendOp.exec_regTask h
    exact ⟨id, id⟩
  | throttle =>
    obtain rfl := SendOp.exec_throttle h
    exact ⟨id, id⟩
  | storeClosed =>
    cases h
    exact ⟨fun _ => rfl, id⟩
  | dropCloseTx =>
    cases h
    exact ⟨id, fun _ => rfl⟩
  | _ =>
    cases h
    exact ⟨id, id⟩

omit [ClientTask B] in
/-- Apart from a registration, no task moves, unless the sender fails its own. -/
theorem SendOp.exec_tasks {ok : Bool} (hreg : ∀ t, o ≠ .regTask t)
    (h : SendOp.exec ok o c = (c', some a)) :
    c'.registered = c.registered ∧ c'.timer.batches = c.timer.batches ∧
      c'.timer.pendingTasks = c.timer.pendingTasks ∧
      c'.timer.taskTimeout = c.timer.taskTimeout ∧
      ∀ d ∈ c'.completed, d ∈ c.completed ∨ ∃ t, o = .errorHandle t ∧ d = .errorHandled t := by
  cases o with
  | regTask t => exact absurd rfl (hreg t)
  | throttle =>
    obtain rfl := SendOp.exec_throttle h
    exact ⟨rfl, rfl, rfl, rfl, fun d hd => Or.inl hd⟩
  | errorHandle t =>
    cases h
    refine ⟨rfl, rfl, rfl, rfl, fun d hd => ?_⟩
    rcases List.mem_append.mp hd with hd | hd
    · exact Or.inl hd
    · exact Or.inr ⟨t, rfl, List.mem_singleton.mp hd⟩
  | _ =>
    cases h
    exact ⟨rfl, rfl, rfl, rfl, fun d hd => Or.inl hd⟩

end SendOps

/-! ## The registry -/

/-- The tasks in the registry were registered so many ticks ago as their batch says,
at least. -/
structure Diary.Dates (x : Diary) (t : ClientTaskTimer B) : Prop where
  batches : t.Batched fun i task => x.since task.id + i ≤ x.ticks
  pending : ∀ task ∈ t.pendingTasks, x.since task.id ≤ x.ticks

omit [ClientTask B] in
/-- The receiver's operations. -/
theorem Diary.Dates.exec {x : Diary} {c c' : Conn B} (h : x.Dates c.timer) {arrival : Arrival}
    {o : RecvOp B} {a : Option o.Res} (hexec : RecvOp.exec arrival o c = (c', a)) :
    x.Dates c'.timer := by
  have hpending := (RecvOp.exec_turn hexec).pendingTasks
  refine ⟨?_, fun task htask => h.pending task (hpending htask)⟩
  obtain rfl : (RecvOp.exec arrival o c).1 = c' := congrArg Prod.fst hexec
  cases o with
  | readHead cancellable =>
    rw [RecvOp.exec_readHead]
    exact h.batches
  | readExact n =>
    rw [RecvOp.exec_readExact]
    exact h.batches
  | checkPendingTasksEmpty => exact h.batches.pullPending h.pending
  | takeTask seq => exact h.batches.takeTask h.pending seq.toNat
  | resumeTakeTask seq => exact h.batches.resumeTakeTask h.pending seq.toNat
  | _ => exact h.batches

/-- The tasks a tick fails have waited for `task_timeout`. -/
theorem Diary.Dates.timedOut {x : Diary} {t : ClientTaskTimer B} (h : x.Dates t) {y : Task B}
    (hy : y ∈ t.adjustTaskQueue.2) :
    TimedOut { x with ticks := x.ticks + 1 } t.taskTimeout (.errorHandled y) := by
  obtain ⟨-, hlate⟩ := h.batches.adjustTaskQueue
    (S := fun i task => x.since task.id + i ≤ x.ticks + 1) fun i task h => Nat.succ_le_succ h
  obtain ⟨i, task, hle, hsince, rfl⟩ := hlate y hy
  refine ⟨task, rfl, ?_⟩
  change x.since task.id + t.taskTimeout < x.ticks + 1
  omega

/-- The tasks registered ended as they should, as far as they ended. -/
def Conn.AllEnded (c : Conn B) (x : Diary) (taskTimeout : ℕ) : Prop :=
  ∀ t ∈ c.registered, ∀ d ∈ c.completed, d.id = t.id → x.Ended taskTimeout d

/-- An empty registry is cleaned without consequences. -/
theorem Conn.completed_clean {c : Conn B} (inv : c.Inv) (hnil : c.timer.live = []) :
    c.clean.completed = c.completed := by
  obtain ⟨hi, htimer, -⟩ := inv.timer
  have hperm := htimer.cleanPendingTasks.2.2
  rw [hnil, List.map_nil, List.perm_nil] at hperm
  change c.completed ++ (c.timer.cleanPendingTasks.2.map Completion.errorHandled) = c.completed
  rw [hperm, List.map_nil, List.append_nil]

/-! ## The system -/

namespace Sys

/-- The connection reports no error, except that headers may be late. -/
def undisturbed (s : Sys B) : Label B → Bool
  | .sender ok => ok
  | .receiver _ arrival => s.receiver.op.all (·.undisturbed arrival)
  | _ => true

/-- No header is late while tasks are registered. -/
def patient (s : Sys B) : Label B → Bool
  | .receiver _ arrival => s.receiver.op.all (·.patient s.conn arrival)
  | _ => true

/-- `has_err` is not set, the connection reports no error but late headers, and the
sequence numbers last. -/
def Undisturbed (s : Sys B) (l : Label B) : Prop :=
  s.conn.hasErr = false ∧ s.undisturbed l = true ∧ s.conn.seq.toNat + 1 < 2 ^ 64

instance (s : Sys B) (l : Label B) : Decidable (Undisturbed s l) :=
  inferInstanceAs (Decidable (_ ∧ _ ∧ _))

/-- The invariant. -/
structure Lingering (cfg : ConnConfig) (s : Sys B) (x : Diary) : Prop where
  inv : s.Inv
  sender : s.sender.Parts s.conn
  receiver : s.receiver.Lingers s.conn x.heads
  dropped : s.conn.dropped = []
  ended : s.conn.AllEnded x cfg.taskTimeout
  dates : x.Dates s.conn.timer
  timeout : s.conn.timer.taskTimeout = cfg.taskTimeout

namespace Lingering

variable {cfg : ConnConfig} {s s' : Sys B} {x : Diary}

theorem tick (h : Lingering cfg s x) (inv : Inv { s with conn := s.conn.timeReach }) :
    Lingering cfg { s with conn := s.conn.timeReach } { x with ticks := x.ticks + 1 } := by
  obtain ⟨hi, htimer, -⟩ := h.inv.conn.timer
  obtain ⟨-, late, hlive, -⟩ := htimer.adjustTaskQueue
  obtain ⟨hbatches, -⟩ := h.dates.batches.adjustTaskQueue
    (S := fun i task => x.since task.id + i ≤ x.ticks + 1) fun i task h => Nat.succ_le_succ h
  have hturn := ClientTaskTimer.turn_adjustTaskQueue s.conn.timer
  refine ⟨inv, h.sender.congr rfl id, h.receiver.congr id id fun _ hnil => ?_, h.dropped, ?_, ?_, ?_⟩
  · rw [hnil] at hlive
    exact (List.append_eq_nil_iff.mp hlive.symm).2
  · intro t ht d hd hid
    rcases List.mem_append.mp hd with hd | hd
    · exact (h.ended t ht d hd hid).mono (Nat.le_succ _) rfl (List.Subset.refl _)
    · obtain ⟨y, hy, rfl⟩ := List.mem_map.mp hd
      rw [← h.timeout]
      exact Or.inr (h.dates.timedOut hy)
  · exact ⟨hbatches, fun task htask =>
      Nat.le_succ_of_le (h.dates.pending task (hturn.pendingTasks htask))⟩
  · exact hturn.taskTimeout.trans h.timeout

/-- An operation of the receive future. -/
theorem op (h : Lingering cfg s x) {arrival : Arrival} {o : RecvOp B}
    {k : o.Res → Recv B (Option RpcIntErr)} (hreceiver : s.receiver = .future .polling (.act o k))
    (herr : s.conn.hasErr = false) (hcalm : o.undisturbed arrival = true)
    (hpatient : o.patient s.conn arrival = true) {c' : Conn B} {a : o.Res}
    (hexec : RecvOp.exec arrival o s.conn = (c', some a)) {r : RecvPhase}
    (inv : Inv { s with conn := { c' with recv := r }, receiver := .future .polling (k a) }) :
    Lingering cfg { s with conn := { c' with recv := r }, receiver := .future .polling (k a) }
      { x with heads := x.heads ++ (o.headRead arrival).toList } := by
  obtain ⟨hcloseTx, hhasErr, hreg, -, hclosed⟩ := RecvOp.exec_shared hexec
  have hreceives := h.receiver
  rw [hreceiver] at hreceives
  obtain ⟨y, hfits, hfollows⟩ := hreceives
  have hfits' := RecvOp.fits_exec h.inv.conn herr hfits hfollows.1 hcalm hpatient hexec
  have hdates := h.dates.exec hexec
  refine ⟨inv, h.sender.congr hhasErr ?_, ⟨_, hfits'.congr id id fun _ => id, hfollows.step a⟩,
    (RecvOp.exec_frame hexec).2.2.trans h.dropped, ?_, ⟨hdates.batches, hdates.pending⟩, ?_⟩
  · rintro (hc | hc)
    · rcases hclosed hc with hc | rfl
      · exact Or.inl hc
      · have hok := hfollows.1.resolve_left (by rw [hfits.excused]; exact Bool.noConfusion)
        exact hok.imp hfits.sawClosed hfits.fired
    · exact Or.inr (hcloseTx.symm.trans hc)
  · intro t ht d hd hid
    rcases RecvOp.exec_completed hfits.excused hfollows.1 hexec d hd with hd | hd
    · change t ∈ c'.registered at ht
      rw [hreg] at ht
      exact (h.ended t ht d hd hid).mono (Nat.le_refl _) rfl (List.subset_append_left _ _)
    · obtain ⟨r, task, hhead, hseq, hd⟩ := hfits.answered hd x rfl
      exact Or.inl ⟨r, task, List.mem_append_left _ hhead, hseq, hd⟩
  · exact (RecvOp.exec_turn hexec).taskTimeout.trans h.timeout

/-- An operation of the receive future that waits. -/
theorem wait (h : Lingering cfg s x) {arrival : Arrival} {o : RecvOp B}
    {k : o.Res → Recv B (Option RpcIntErr)} (hreceiver : s.receiver = .future .polling (.act o k))
    {c' : Conn B} (hexec : RecvOp.exec arrival o s.conn = (c', none))
    (inv : Inv { s with conn := c', receiver := .future .suspended (.act o k) }) :
    Lingering cfg { s with conn := c', receiver := .future .suspended (.act o k) }
      { x with heads := x.heads ++ (o.headRead arrival).toList } := by
  obtain ⟨hcloseTx, hhasErr, hreg, hcloses, hclosed⟩ := RecvOp.exec_shared hexec
  have hlive := RecvOp.exec_live h.inv.conn hexec
  have hreceives := h.receiver
  rw [hreceiver] at hreceives
  obtain ⟨y, hfits, hfollows⟩ := hreceives
  rw [RecvOp.headRead_of_waits hexec, Option.toList_none, List.append_nil]
  refine ⟨inv, h.sender.congr hhasErr ?_, ⟨y, hfits.congr hcloses (fun h => hcloseTx.trans h) ?_,
    hfollows⟩, (RecvOp.exec_frame hexec).2.2.trans h.dropped, ?_, h.dates.exec hexec, ?_⟩
  · rintro (hc | hc)
    · rcases hclosed hc with hc | rfl
      · exact Or.inl hc
      · cases hexec
    · exact Or.inr (hcloseTx.symm.trans hc)
  · intro _ hnil
    rw [hnil] at hlive
    exact List.subset_nil.mp hlive
  · intro t ht d hd hid
    rcases RecvOp.exec_completed hfits.excused hfollows.1 hexec d hd with hd | hd
    · change t ∈ c'.registered at ht
      rw [hreg] at ht
      exact h.ended t ht d hd hid
    · exact Or.inl (hfits.answered hd x rfl)
  · exact (RecvOp.exec_turn hexec).taskTimeout.trans h.timeout

/-- Tear-down of an empty registry. -/
theorem clean (h : Lingering cfg s x) (hclosed : s.conn.closed = true)
    (hnil : s.conn.timer.live = []) {receiver : Receiver B} {innerDropped : Bool}
    (inv : Inv { s with conn := s.conn.clean, receiver, innerDropped })
    (hreceiver : s.conn.clean.closed = true → s.conn.clean.timer.live = [] →
      receiver.Lingers s.conn.clean x.heads) :
    Lingering cfg { s with conn := s.conn.clean, receiver, innerDropped } x := by
  have hturn := ClientTaskTimer.turn_cleanPendingTasks s.conn.timer
  refine ⟨inv, h.sender.congr rfl id, hreceiver hclosed h.inv.conn.clean.2, h.dropped, ?_, ?_, ?_⟩
  · intro t ht d hd hid
    change d ∈ s.conn.clean.completed at hd
    rw [Conn.completed_clean h.inv.conn hnil] at hd
    exact h.ended t ht d hd hid
  · exact ⟨ClientTaskTimer.batched_cleanPendingTasks _, fun task htask =>
      h.dates.pending task (hturn.pendingTasks htask)⟩
  · exact hturn.taskTimeout.trans h.timeout

section Receiver

variable (halloc : ∀ n, 0 < n → cfg.platform.alloc n = true) (hreserve : ReservesExactly B)

include halloc hreserve

/-- A step of the receive loop. -/
theorem receiver_step (h : Lingering cfg s x) {tick : Bool} {arrival : Arrival}
    (hok : Undisturbed s (.receiver tick arrival))
    (hpatient : s.patient (.receiver tick arrival) = true)
    (hnext : next cfg s (.receiver tick arrival) = some s') :
    Lingering cfg s' (x.update s (.receiver tick arrival)) := by
  have inv := h.inv.receiver_step hnext
  obtain ⟨⟨c, r⟩, hstep, rfl⟩ := Option.map_eq_some_iff.mp hnext
  obtain ⟨herr, hcalm, -⟩ := hok
  have hreceives := h.receiver
  obtain ⟨conn, sender, receiver, innerDropped⟩ := s
  -- where nothing is read and no tick is due, only the receiver moves
  have hmove : ∀ {receiver' : Receiver B},
      Inv ⟨conn, sender, receiver', innerDropped⟩ → receiver'.Lingers conn x.heads →
      Lingering cfg ⟨conn, sender, receiver', innerDropped⟩ x :=
    fun inv hr => ⟨inv, h.sender, hr, h.dropped, h.ended, h.dates, h.timeout⟩
  by_cases hticking : ∃ p, receiver = .future .ticking p
  · obtain ⟨p, rfl⟩ := hticking
    cases tick with
    | true =>
      cases hstep
      exact h.tick inv
    | false =>
      cases hstep
      exact hmove inv hreceives
  cases stepReceiver_cases hstep with
  | @stage stage stage' p hstage =>
    cases stage with
    | ticking => exact absurd ⟨p, rfl⟩ hticking
    | pulling => exact absurd rfl hstage.1
    | polling => exact absurd rfl hstage.2.1
    | suspended => exact hmove inv hreceives
    | checking => exact hmove inv hreceives
  | tick p => exact absurd ⟨p, rfl⟩ hticking
  | giveUp p hgiveUp => exact absurd (hgiveUp.symm.trans herr) Bool.noConfusion
  | pull p =>
    obtain ⟨hi, htimer, -⟩ := h.inv.conn.timer
    have hlive := htimer.pullPending.2
    have hturn := ClientTaskTimer.turn_pullPending conn.timer
    refine ⟨inv, h.sender.congr rfl id, hreceives.congr id id fun _ hnil => hlive.trans hnil,
      h.dropped, h.ended, ⟨h.dates.batches.pullPending h.dates.pending, fun task htask => ?_⟩,
      hturn.taskTimeout.trans h.timeout⟩
    exact h.dates.pending task (hturn.pendingTasks htask)
  | again =>
    obtain ⟨y, hfits, hends⟩ := hreceives
    have hwhole := (hends.resolve_left (by rw [hfits.excused]; exact Bool.noConfusion)).1
    exact hmove inv ⟨y, hfits, answering_recvOneResp halloc hreserve hwhole⟩
  | fail e =>
    obtain ⟨y, hfits, hends⟩ := hreceives
    have hends := hends.resolve_left (by rw [hfits.excused]; exact Bool.noConfusion)
    exact hmove inv (hfits.leaving (hends.2 rfl))
  | panic k =>
    obtain ⟨y, hfits, hpanic⟩ := hreceives
    exact (hpanic.1.resolve_left (by rw [hfits.excused]; exact Bool.noConfusion)).elim
  | op hexec => exact h.op rfl herr hcalm hpatient hexec inv
  | wait hexec => exact h.wait rfl hexec inv
  | close =>
    refine ⟨inv, h.sender.congr rfl fun _ => Or.inl hreceives.1, ⟨rfl, hreceives.2⟩, h.dropped,
      h.ended, h.dates, h.timeout⟩
  | clean => exact h.clean hreceives.1 hreceives.2 inv fun hc hnil => ⟨hc, hnil⟩
  | drain => exact h.clean hreceives.1 hreceives.2 inv fun hc hnil => ⟨hc, hnil⟩
  | leave => exact hmove inv hreceives
  | wake => exact hmove inv hreceives

end Receiver

/-- A call begins. -/
theorem call (h : Lingering cfg s x) {call : Call B} (hok : Undisturbed s (.call call))
    (hnext : next cfg s (.call call) = some s') : Lingering cfg s' x := by
  have inv := h.inv.call hnext
  obtain ⟨conn, sender, receiver, innerDropped⟩ := s
  cases sender with
  | running dropping p => cases hnext
  | gone => cases hnext
  | idle =>
    cases hnext
    -- without an error the connection is open
    have hopen : ¬ (conn.closed = true ∨ conn.closeTx = false) := fun hc =>
      absurd (hok.1.symm.trans (h.sender hc)) Bool.noConfusion
    have hprogram : ∀ {c : Conn B}, c.closed = conn.closed → c.closeTx = conn.closeTx →
        call ≠ .drop → Sender.Parts c (.running false (program cfg conn.nextId call)) := by
      intro c hclosed hcloseTx hcall
      refine ⟨_, parting_program cfg conn.nextId hcall, Bool.noConfusion, fun hc => ?_⟩
      rw [hclosed, hcloseTx] at hc
      exact absurd hc hopen
    cases call with
    | sendTask t needFlush =>
      exact ⟨inv, hprogram rfl rfl nofun, h.receiver.congr id id fun _ => id, h.dropped, h.ended,
        h.dates, h.timeout⟩
    | drop =>
      refine ⟨inv, ⟨_, parting_dropStream, Bool.noConfusion, fun _ => rfl⟩, h.receiver, h.dropped,
        h.ended, h.dates, h.timeout⟩
    | flushReq | ping | setErrorAndExit =>
      exact ⟨inv, hprogram rfl rfl nofun, h.receiver, h.dropped, h.ended, h.dates, h.timeout⟩

/-- A task is registered: the connection is open, and the task is a new one. -/
theorem regTask (h : Lingering cfg s x) {t : Task B} (hopen : s.conn.closed = false)
    (howned : s.conn.send.owned = some t.id) {timer : ClientTaskTimer B}
    (hreg : s.conn.timer.regTask t = some timer) {sender : Sender B} {send : SendPhase}
    (inv : Inv { s with
      conn := { s.conn with timer, registered := s.conn.registered ++ [t], send }, sender })
    (hsender : sender.Parts s.conn) :
    Lingering cfg { s with
        conn := { s.conn with timer, registered := s.conn.registered ++ [t], send }, sender }
      { x with since := Function.update x.since t.id x.ticks } := by
  have hclosed : ∀ {P : Prop}, s.conn.closed = true → P := fun hc =>
    absurd (hopen.symm.trans hc) Bool.noConfusion
  have hsince : ∀ {i : ℕ}, i ∈ s.conn.placed → Function.update x.since t.id x.ticks i = x.since i :=
    fun hi => Function.update_of_ne (h.inv.conn.owned_ne howned hi) _ _
  have hcompleted : ∀ d ∈ s.conn.completed, d.id ∈ s.conn.placed := fun d hd =>
    List.mem_append_right _ (List.mem_append_right _ (List.mem_append_left _
      (List.mem_map_of_mem hd)))
  have hlive : ∀ task ∈ s.conn.timer.live, task.id ∈ s.conn.placed := fun task htask =>
    List.mem_append_left _ (List.mem_map_of_mem htask)
  obtain rfl := ClientTaskTimer.regTask_eq hreg
  refine ⟨inv, hsender.congr rfl id, h.receiver.congr id id fun hc _ => hclosed hc, h.dropped,
    ?_, ⟨?_, ?_⟩, h.timeout⟩
  · intro t' ht' d hd hid
    have hd' := hcompleted d hd
    rcases List.mem_append.mp ht' with ht' | ht'
    · exact (h.ended t' ht' d hd hid).mono (Nat.le_refl _) (hsince hd') (List.Subset.refl _)
    · rw [List.mem_singleton.mp ht'] at hid
      exact absurd hid (h.inv.conn.owned_ne howned hd')
  · refine ClientTaskTimer.Batched.of_eq ?_ rfl
    refine h.dates.batches.mono fun i task htask hle => ?_
    change Function.update x.since t.id x.ticks task.id + i ≤ x.ticks
    rw [hsince (hlive task htask)]
    exact hle
  · intro task htask
    change Function.update x.since t.id x.ticks task.id ≤ x.ticks
    rcases List.mem_append.mp htask with htask | htask
    · rw [hsince (hlive task (List.mem_append_right _ htask))]
      exact h.dates.pending task htask
    · rw [List.mem_singleton.mp htask, Function.update_self]

/-- A task is registered while the connection is open. -/
theorem open_of_regTask (h : Lingering cfg s x) (herr : s.conn.hasErr = false) {dropping : Bool}
    {t : Task B} {k : Unit → Send B (Except RpcIntErr Unit)}
    (hsender : s.sender = .running dropping (.act (.regTask t) k)) : s.conn.closed = false := by
  have hparts := h.sender
  rw [hsender] at hparts
  obtain ⟨y, hfollows, hy, hquit⟩ := hparts
  have hnoErr : ¬ y.err = true := fun hyerr =>
    absurd (herr.symm.trans (hy hyerr)) Bool.noConfusion
  have hstay : y.quit = false := hfollows.1.resolve_left hnoErr
  by_contra hclosed
  have := hquit (Or.inl (Bool.eq_true_of_not_eq_false hclosed))
  cases hstay.symm.trans this

/-- A step of the sender. -/
theorem sender_step (h : Lingering cfg s x) {ok : Bool} (hok : Undisturbed s (.sender ok))
    (hnext : next cfg s (.sender ok) = some s') :
    Lingering cfg s' (x.update s (.sender ok)) := by
  have inv := h.inv.sender_step hok.2.2 hnext
  obtain ⟨⟨c, p⟩, hstep, rfl⟩ := Option.map_eq_some_iff.mp hnext
  have hparts := h.sender
  have hsends := h.inv.sender
  obtain ⟨herr, rfl, -⟩ := hok
  obtain ⟨conn, sender, receiver, innerDropped⟩ := s
  cases stepSender_cases hstep with
  | finish dropping r =>
    obtain ⟨y, hend, hy, hquit⟩ := hparts
    refine ⟨inv, ?_, h.receiver.congr id id fun _ => id, h.dropped, h.ended, h.dates, h.timeout⟩
    cases dropping with
    | true => exact trivial
    | false =>
      intro hc
      rcases hend (hquit hc) with hyerr | hdropping
      · exact hy hyerr
      · cases hdropping
  | @op dropping o k c' a hexec =>
    obtain ⟨y, hfollows, hy, hquit⟩ := hparts
    obtain ⟨hy', hquit'⟩ := SendOp.parts_exec herr hy hquit hfollows.1 hexec
    obtain ⟨hcloses, hcloseTx⟩ := SendOp.exec_closes hexec
    by_cases hreg : ∃ t, o = .regTask t
    · obtain ⟨t, rfl⟩ := hreg
      obtain ⟨timer, hreg, rfl⟩ := SendOp.exec_regTask hexec
      have hopen := h.open_of_regTask herr rfl
      exact h.regTask hopen hsends.1.1 hreg inv ⟨y, hfollows.step a, hy, hquit⟩
    · have hreg : ∀ t, o ≠ .regTask t := fun t ht => hreg ⟨t, ht⟩
      obtain ⟨hregistered, hbatches, hpending, htimeout, hcompleted⟩ := SendOp.exec_tasks hreg hexec
      have hx : x.update ⟨conn, .running dropping (.act o k), receiver, innerDropped⟩
          (.sender true) = x := by
        cases o with
        | regTask t => exact absurd rfl (hreg t)
        | _ => rfl
      have hlive : c'.timer.live = conn.timer.live := by
        obtain ⟨hsent, hdelay⟩ := List.cons.inj hbatches
        rw [ClientTaskTimer.live, ClientTaskTimer.pulled, hsent, hdelay, hpending]
        rfl
      rw [hx]
      refine ⟨inv, ⟨_, hfollows.step a, hy', hquit'⟩,
        h.receiver.congr hcloses hcloseTx fun _ hnil => hlive.trans hnil,
        (SendOp.exec_frame hexec).2.trans h.dropped, ?_, ⟨h.dates.batches.of_eq hbatches, ?_⟩,
        htimeout.trans h.timeout⟩
      · intro t ht d hd hid
        change t ∈ c'.registered at ht
        rw [hregistered] at ht
        rcases hcompleted d hd with hd | ⟨t', rfl, rfl⟩
        · exact h.ended t ht d hd hid
        · -- the task is the sender's own
          have hplaced := h.inv.conn.registered t ht
          exact absurd hid.symm (h.inv.conn.owned_ne hsends.1.1 hplaced)
      · intro task htask
        change task ∈ c'.timer.pendingTasks at htask
        rw [hpending] at htask
        exact h.dates.pending task htask

/-- The last reference goes after the receiver has left. -/
theorem dropInner (h : Lingering cfg s x) (hnext : next cfg s .dropInner = some s') :
    Lingering cfg s' x := by
  simp only [next] at hnext
  split at hnext
  · rename_i hunused
    cases hnext
    rw [innerUnused, Bool.and_eq_true, Bool.and_eq_true] at hunused
    have hover := hunused.1.2
    obtain ⟨conn, sender, receiver, innerDropped⟩ := s
    have hreceives := h.receiver
    obtain ⟨inv, hnil⟩ := h.inv.conn.clean
    have hinv : Inv ⟨conn.clean, sender, receiver, true⟩ := ⟨inv, h.inv.sender.congr rfl,
      h.inv.receiver.congr rfl, fun _ => ⟨hunused.1.1, hover, hnil⟩⟩
    cases receiver with
    | returned => exact h.clean hreceives.1 hreceives.2 hinv fun hc hnil => ⟨hc, hnil⟩
    | panicked => exact hreceives.elim
    | _ => cases hover
  · cases hnext

end Lingering

variable {cfg : ConnConfig} {s : Sys B} {x : Diary}

theorem lingering_init (halloc : ∀ n, 0 < n → cfg.platform.alloc n = true)
    (hreserve : ReservesExactly B) : Lingering cfg (init cfg : Sys B) .empty := by
  have hwhole : (Answering.none : Answering B).Whole := ⟨rfl, nofun⟩
  refine ⟨inv_init cfg, ?_, ⟨.none, ?_, answering_recvOneResp halloc hreserve hwhole⟩, rfl, nofun,
    ⟨ClientTaskTimer.batched_new _ _, nofun⟩, rfl⟩
  · rintro (hc | hc)
    · cases hc
    · cases hc
  · exact ⟨rfl, nofun, nofun, Bool.noConfusion, Bool.noConfusion, Bool.noConfusion⟩

/-- Every step keeps the invariant. -/
theorem Lingering.step (halloc : ∀ n, 0 < n → cfg.platform.alloc n = true)
    (hreserve : ReservesExactly B) (h : Lingering cfg s x) {s' : Sys B} {l : Label B}
    (hok : Undisturbed s l) (hpatient : s.patient l = true) (hnext : next cfg s l = some s') :
    Lingering cfg s' (x.update s l) := by
  cases l with
  | call call => exact h.call hok hnext
  | sender ok => exact h.sender_step hok hnext
  | receiver tick arrival => exact h.receiver_step halloc hreserve hok hpatient hnext
  | dropInner => exact h.dropInner hnext

/-- **After the drop.** In every run without `has_err` and without errors of the
connection, in which no header is late while tasks are registered: a registered task
that has ended got its response, or `Timeout` after `task_timeout`; and as long as one
has not ended, the receiver keeps running. -/
theorem registered_lingers (halloc : ∀ n, 0 < n → cfg.platform.alloc n = true)
    (hreserve : ReservesExactly B)
    (h : Lts.Reach (Lts.watch (next cfg) Diary.update)
      (fun p l => Undisturbed p.1 l ∧ p.1.patient l = true) (init cfg, .empty) (s, x)) :
    (∀ t ∈ s.conn.registered, ∀ d ∈ s.conn.completed, d.id = t.id → x.Ended cfg.taskTimeout d) ∧
      ∀ t ∈ s.conn.registered, t.id ∉ s.conn.completed.map Completion.id →
        s.receiver.isReceiving = true ∧
          (t.id ∈ s.conn.timer.live.map Task.id ∨ s.conn.recv.held = some t.id) := by
  have hlingering : Lingering cfg s x := by
    refine h.invariant (I := fun p => Lingering cfg p.1 p.2) (lingering_init halloc hreserve) ?_
    rintro ⟨s, x⟩ l ⟨s', x'⟩ hs ⟨hok, hpatient⟩ hnext
    obtain ⟨hnext, rfl⟩ := Lts.watch_eq_some.mp hnext
    exact hs.step halloc hreserve hok hpatient hnext
  refine ⟨hlingering.ended, fun t ht hnot => ?_⟩
  have hplaced := hlingering.inv.conn.registered t ht
  rw [Conn.placed, hlingering.dropped, List.append_nil, List.mem_append, List.mem_append,
    or_iff_left hnot, Option.mem_toList] at hplaced
  refine ⟨?_, hplaced⟩
  -- a receiver that has left holds nothing and leaves nothing behind
  have hleft : s.receiver.isReceiving = false → s.conn.timer.live = [] ∧ s.conn.recv.held = none := by
    intro hleft
    have hreceiver := hlingering.receiver
    have hempty := hlingering.inv.receiver
    rcases hr : s.receiver with ⟨stage, p⟩ | _ | _ | _ | _ | _ | _
    · rw [hr] at hleft
      cases hleft
    all_goals
      rw [hr] at hreceiver hempty
      first
      | exact ⟨hreceiver.2, hempty⟩
      | exact hreceiver.elim
  by_contra hnotReceiving
  obtain ⟨hnil, hnone⟩ := hleft (Bool.eq_false_of_not_eq_true hnotReceiving)
  rw [hnil, hnone] at hplaced
  rcases hplaced with hplaced | hplaced
  · cases hplaced
  · cases hplaced

/-! ### Two runs -/

/-- A task is sent, the stream is dropped, and the receiver asks for a header. -/
def droppedWaiting : List (Label APIClientReq) :=
  .call (.sendTask ⟨0, 0, .new "calc.add" [1]⟩ true) :: (sends 12 ++
    .call .drop :: (sends 4 ++ receives 7))

/-- The response comes after the drop, and the task gets it. -/
theorem registered_lingers_answered :
    ∃ (s : Sys APIClientReq) (x : Diary),
      Lts.Reach (Lts.watch (next apiConfig) Diary.update)
        (fun p l => Undisturbed p.1 l ∧ p.1.patient l = true) (init apiConfig, .empty) (s, x) ∧
      ∃ t ∈ s.conn.registered, ∃ d ∈ s.conn.completed, d.id = t.id ∧
        x.Ended apiConfig.taskTimeout d := by
  have hrun : (Lts.exec (Lts.watch (next apiConfig) Diary.update)
      (fun p l => Undisturbed p.1 l ∧ p.1.patient l = true) (init apiConfig, .empty)
      (droppedWaiting ++ .receiver false (.bytes (RespHead.new 0 1 2 0).toBytes) ::
        .receiver false .nothing :: .receiver false (.bytes [146, 1]) :: receives 2)).any
      (fun p => decide (∃ t ∈ p.1.conn.registered, ∃ d ∈ p.1.conn.completed, d.id = t.id)) =
        true := by
    decide +kernel
  obtain ⟨⟨s, x⟩, hreach, htest⟩ := Lts.Reach.exists_of_exec hrun
  obtain ⟨t, ht, d, hd, hid⟩ := of_decide_eq_true htest
  exact ⟨s, x, hreach, t, ht, d, hd, hid,
    (registered_lingers (fun _ _ => rfl) reservesExactly_api hreach).1 t ht d hd hid⟩

/-- A header that is late after the drop: the task fails with `IO`, at once, and the
receiver is gone. -/
theorem late_header_fails_registered :
    ∃ (s : Sys APIClientReq) (x : Diary),
      Lts.Reach (Lts.watch (next apiConfig) Diary.update) (fun p l => Undisturbed p.1 l)
        (init apiConfig, .empty) (s, x) ∧
      s.sender.isGone = true ∧ s.receiver.isReturned = true ∧
      ∃ t ∈ s.conn.registered, ∃ d ∈ s.conn.completed, d.id = t.id ∧
        d = .errorHandled (t.setRpcError .io) ∧ ¬ x.Ended apiConfig.taskTimeout d := by
  have hrun : (Lts.exec (Lts.watch (next apiConfig) Diary.update) (fun p l => Undisturbed p.1 l)
      (init apiConfig, .empty)
      (droppedWaiting ++ .receiver false .error :: receives 5)).any
      (fun p => decide (p.1.sender.isGone = true ∧ p.1.receiver.isReturned = true ∧
        p.2.ticks = 0 ∧ p.2.heads.length = 0 ∧
        ∃ t ∈ p.1.conn.registered, ∃ d ∈ p.1.conn.completed, d.id = t.id ∧
          d = .errorHandled (t.setRpcError .io))) = true := by
    decide +kernel
  obtain ⟨⟨s, x⟩, hreach, htest⟩ := Lts.Reach.exists_of_exec hrun
  obtain ⟨hgone, hreturned, hticks, hheads, t, ht, d, hd, hid, hio⟩ := of_decide_eq_true htest
  refine ⟨s, x, hreach, hgone, hreturned, t, ht, d, hd, hid, hio, ?_⟩
  rintro (⟨r, task, hhead, -⟩ | ⟨task, -, hlt⟩)
  · rw [List.length_eq_zero_iff.mp hheads] at hhead
    cases hhead
  · rw [hticks] at hlt
    cases hlt

end Sys

end RazorRpc
