import RazorRpc.Watch

/-!
# The counter of pending tasks

`pending_task_count` is to tell the drain loop of `receive_loop` that a task may
still come through the channel: `send_task` counts its task before it looks at
`closed`, the registry takes it off when the task arrives, and the exits of
`send_task` that register nothing take it back by hand.

* `ClientTaskTimer.surplus` — what the counter says beyond the tasks in the
  channel; whatever the receiver does leaves it alone (`Turn.surplus`);
* `counting` — whether the call under way has counted a task and not yet
  registered it or taken the count back.

`pendingTaskCount_exact` says when the two agree. The exit for a failed encode
does not take the count back (`pendingTaskCount_leaks`).
-/

namespace RazorRpc

open Prog ClientStream

/-! ## The registry -/

namespace ClientTaskTimer

variable {B : Type}

/-- What the counter says beyond the tasks in the channel. -/
def surplus (t : ClientTaskTimer B) : UInt64 :=
  t.pendingTaskCount - UInt64.ofNat t.pendingTasks.length

/-- In the middle of a pull: the first `n` tasks in the channel have arrived. -/
def pullFirst (t : ClientTaskTimer B) (n : ℕ) : ClientTaskTimer B :=
  (t.pendingTasks.take n).foldl gotPendingTask { t with pendingTasks := t.pendingTasks.drop n }

theorem pendingTaskCount_foldl (tasks : List (Task B)) (t : ClientTaskTimer B) :
    (tasks.foldl gotPendingTask t).pendingTaskCount =
      t.pendingTaskCount - UInt64.ofNat tasks.length := by
  induction tasks generalizing t with
  | nil => simp
  | cons x tasks ih =>
    rw [List.foldl_cons, ih, List.length_cons, UInt64.ofNat_add]
    simp only [gotPendingTask]
    grind

/-- A task that arrives leaves the channel and the count together. -/
theorem surplus_pullFirst (t : ClientTaskTimer B) (n : ℕ) : (t.pullFirst n).surplus = t.surplus := by
  have hlen : t.pendingTasks.length =
      (t.pendingTasks.take n).length + (t.pendingTasks.drop n).length := by
    rw [← List.length_append, List.take_append_drop]
  rw [surplus, surplus, pullFirst, pendingTaskCount_foldl, pendingTasks_foldl, hlen,
    UInt64.ofNat_add]
  grind

theorem pullPending_eq_pullFirst (t : ClientTaskTimer B) :
    t.pullPending = t.pullFirst t.pendingTasks.length := by
  simp [pullPending, pullFirst]

/-- The receiver leaves the surplus alone and adds nothing to the channel. -/
theorem Turn.surplus {t t' : ClientTaskTimer B} (h : Turn t t') :
    t'.surplus = t.surplus ∧ t'.pendingTasks.length ≤ t.pendingTasks.length := by
  cases h with
  | stay => exact ⟨rfl, Nat.le_refl _⟩
  | pull =>
    have hsurplus := surplus_pullFirst t t.pendingTasks.length
    rw [← pullPending_eq_pullFirst] at hsurplus
    refine ⟨hsurplus, ?_⟩
    change t.pullPending.pendingTasks.length ≤ _
    rw [pendingTasks_pullPending]
    exact Nat.zero_le _

/-- A registration uses up one count. -/
theorem surplus_regTask {t t' : ClientTaskTimer B} {x : Task B} (h : t.regTask x = some t') :
    t'.surplus = t.surplus - 1 ∧ t'.pendingTasks.length ≤ t'.pendingCap ∧
      t'.pendingCap = t.pendingCap := by
  rw [regTask] at h
  split at h
  · rename_i hlt
    cases h
    refine ⟨?_, ?_, rfl⟩
    · simp only [ClientTaskTimer.surplus, List.length_append, List.length_singleton,
        UInt64.ofNat_add]
      grind
    · rw [List.length_append]
      exact hlt
  · cases h

end ClientTaskTimer

variable {B : Type}

/-! ## The record -/

/-- What is recorded of the sender. -/
structure Counting (B : Type) where
  /-- a task is counted, and neither registered nor taken back -/
  counted : Bool
  /-- the task of the `send_task` under way -/
  task : Option B
  /-- the connection was found open for a task that does not encode -/
  stuck : Bool

/-- Between two calls. -/
def Counting.none : Counting B := ⟨false, .none, false⟩

/-- The counter, against the channel and the record. -/
structure Counting.Agrees (cfg : ConnConfig) (c : Conn B) (x : Counting B) : Prop where
  free : x.stuck = false
  surplus : c.timer.surplus = if x.counted then 1 else 0
  length_le : c.timer.pendingTasks.length ≤ c.timer.pendingCap
  cap : c.timer.pendingCap = (Conn.new cfg : Conn B).timer.pendingCap

namespace Counting.Agrees

variable {cfg : ConnConfig} {c c' : Conn B} {x : Counting B}

theorem new (cfg : ConnConfig) : Counting.none.Agrees cfg (Conn.new cfg : Conn B) := by
  refine ⟨rfl, ?_, Nat.zero_le _, rfl⟩
  change (0 : UInt64) - UInt64.ofNat 0 = 0
  rfl

/-- The receiver's part. -/
theorem turn (h : x.Agrees cfg c) (hturn : c.timer.Turn c'.timer) : x.Agrees cfg c' := by
  obtain ⟨hsurplus, hle⟩ := hturn.surplus
  refine ⟨h.free, hsurplus.trans h.surplus, ?_, hturn.pendingCap.trans h.cap⟩
  rw [hturn.pendingCap]
  exact Nat.le_trans hle h.length_le

/-- The registry is left alone. -/
theorem same (h : x.Agrees cfg c) (htimer : c'.timer = c.timer) : x.Agrees cfg c' :=
  h.turn (htimer ▸ .refl _)

/-- The counter moves. -/
theorem setCount (h : x.Agrees cfg c) {n : UInt64} (counted : Bool)
    (hn : n - c.timer.pendingTaskCount = (if counted then 1 else 0) - if x.counted then 1 else 0)
    (send : SendPhase) :
    Counting.Agrees cfg { c with timer := { c.timer with pendingTaskCount := n }, send }
      { x with counted } := by
  refine ⟨h.free, ?_, h.length_le, h.cap⟩
  have hsurplus := h.surplus
  simp only [ClientTaskTimer.surplus] at hsurplus ⊢
  grind

theorem regTask (h : x.Agrees cfg c) (hcounted : x.counted = true) {t : Task B}
    {timer : ClientTaskTimer B} (hreg : c.timer.regTask t = some timer)
    (registered : List (Task B)) (send : SendPhase) :
    Counting.Agrees cfg { c with timer, registered, send } { x with counted := false } := by
  obtain ⟨hsurplus, hle, hcap⟩ := ClientTaskTimer.surplus_regTask hreg
  refine ⟨h.free, ?_, hle, hcap.trans h.cap⟩
  rw [hsurplus, h.surplus, hcounted]
  rfl

/-- The counter itself. -/
theorem toNat_pendingTaskCount (h : x.Agrees cfg c) (hcap : 2 * cfg.thresholds < 2 ^ 64) (n : ℕ) :
    (c.timer.pullFirst n).pendingTaskCount.toNat =
      (c.timer.pullFirst n).pendingTasks.length + x.counted.toNat := by
  have hlt : c.timer.pendingCap + 1 < 2 ^ 64 := by
    rw [h.cap]
    by_cases hzero : cfg.thresholds = 0
    · simp [Conn.new, ClientTaskTimer.new, hzero]
    · simp only [Conn.new, ClientTaskTimer.new, hzero, if_false]
      omega
  have hle : (c.timer.pullFirst n).pendingTasks.length ≤ c.timer.pendingCap := by
    rw [ClientTaskTimer.pullFirst, ClientTaskTimer.pendingTasks_foldl]
    exact Nat.le_trans (List.drop_sublist _ _).length_le h.length_le
  have hcount : (c.timer.pullFirst n).pendingTaskCount =
      UInt64.ofNat ((c.timer.pullFirst n).pendingTasks.length + x.counted.toNat) := by
    have hsurplus := (c.timer.surplus_pullFirst n).trans h.surplus
    rw [ClientTaskTimer.surplus] at hsurplus
    rw [UInt64.ofNat_add]
    rcases hc : x.counted with _ | _
    · simp only [hc, Bool.false_eq_true, if_false] at hsurplus
      simp only [Bool.toNat_false]
      grind
    · simp only [hc, if_true] at hsurplus
      simp only [Bool.toNat_true]
      grind
  have hone : x.counted.toNat ≤ 1 := Bool.toNat_le _
  rw [hcount, UInt64.toNat_ofNat_of_lt' (by rw [UInt64.size]; omega)]

end Counting.Agrees

/-! ## The sender -/

variable [ClientTask B]

/-- The task a call sends. -/
def Call.task : Call B → Option B
  | .sendTask t _ => some t.body
  | _ => none

/-- Who takes a count back has one, unless the call is stuck. -/
def counting : SendWatch B (Counting B) where
  protocol :=
    { ok := fun x o => x.stuck = true ∨
        match o with
        | .pendingAdd => x.counted = false
        | .pendingSub | .regTask _ => x.counted = true
        | _ => True
      next := fun x o r =>
        match o, r with
        | .pendingAdd, _ => { x with counted := true }
        | .pendingSub, _ => { x with counted := false }
        | .regTask _, _ => { x with counted := false }
        | .loadClosed, closed =>
          { x with stuck := x.stuck || !closed && x.task.any fun b => !decide (ReqHead.Encodes b) }
        | _, _ => x }
  begin := fun _ call => ⟨false, call.task, false⟩
  finish := fun _ => .none

/-- A call may end: nothing is left counted. -/
def Counting.CanEnd (x : Counting B) : Prop := x.stuck = true ∨ x.counted = false

theorem counting_of_stuck {x : Counting B} (h : x.stuck = true)
    (p : Send B (Except RpcIntErr Unit)) :
    Follows counting.protocol (fun _ x => x.CanEnd) x p := by
  refine Follows.of_closed (C := fun x : Counting B => x.stuck = true) (fun x o h => Or.inl h)
    (fun x o r h => ?_) (fun _ x h => Or.inl h) h p
  cases o with
  | loadClosed =>
    change (x.stuck || _) = true
    rw [h]
    rfl
  | _ => exact h

theorem counting_writeReq (x : Counting B) (buf : List UInt8) (blob : Option (List UInt8))
    (needFlush : Bool) :
    Follows counting.protocol (fun _ x' => x' = x) x (TcpClient.writeReq buf blob needFlush) :=
  follows_writeReq (fun _ => ⟨Or.inr trivial, fun _ => rfl⟩) (fun _ => ⟨Or.inr trivial, fun _ => rfl⟩)
    ⟨Or.inr trivial, fun _ => rfl⟩ buf blob needFlush

/-- A task that encodes is registered, or its count taken back. -/
theorem counting_sendRequest (clientId : UInt64) {task : Task B}
    (henc : ReqHead.Encodes task.body) (needFlush : Bool) :
    Follows counting.protocol (fun _ x => x.CanEnd) ⟨true, some task.body, false⟩
      (sendRequest clientId task needFlush) := by
  refine ⟨Or.inr trivial, fun seq => ⟨Or.inr trivial, fun buf => ⟨Or.inr trivial, fun _ => ?_⟩⟩⟩
  change Follows counting.protocol _ ⟨true, some task.body, false⟩
    (writeEncoded _ _ needFlush (ReqHead.encode buf clientId (task.setSeq seq)).2)
  obtain ⟨⟨msgLen, hret, hmsg⟩, hblob⟩ := henc
  rw [(ReqHead.encode_of_encodes buf clientId (task.setSeq seq) hret hmsg hblob).1]
  refine (counting_writeReq _ _ _ _).bind fun wrote x hx => ?_
  subst hx
  cases wrote with
  | true => exact ⟨Or.inr trivial, fun _ => ⟨Or.inr rfl, fun _ => Or.inr rfl⟩⟩
  | false =>
    exact ⟨Or.inr trivial, fun _ => ⟨Or.inr trivial, fun _ => ⟨Or.inr rfl, fun _ =>
      ⟨Or.inr trivial, fun _ => ⟨Or.inr trivial, fun _ => Or.inr rfl⟩⟩⟩⟩⟩

theorem counting_sendTask (clientId : UInt64) (task : Task B) (needFlush : Bool) :
    Follows counting.protocol (fun _ x => x.CanEnd) ⟨false, some task.body, false⟩
      (sendTask clientId task needFlush) := by
  refine ⟨Or.inr trivial, fun full => ⟨Or.inr rfl, fun _ => ⟨Or.inr trivial, fun closed => ?_⟩⟩⟩
  cases closed with
  | true => exact ⟨Or.inr trivial, fun _ => ⟨Or.inr rfl, fun _ => Or.inr rfl⟩⟩
  | false =>
    by_cases henc : ReqHead.Encodes task.body
    · have hgoes : counting.protocol.next ⟨true, some task.body, false⟩ .loadClosed false =
          ⟨true, some task.body, false⟩ := by
        simp [counting, henc]
      change Follows counting.protocol _
        (counting.protocol.next ⟨true, some task.body, false⟩ .loadClosed false)
        (sendRequest clientId task _ >>= finishSend)
      rw [hgoes]
      refine (counting_sendRequest clientId henc _).bind fun r x hx => ?_
      cases r with
      | error e => exact ⟨Or.inr trivial, fun _ => ⟨Or.inr trivial, fun _ => hx⟩⟩
      | ok _ => exact ⟨Or.inr trivial, fun _ => hx⟩
    · refine counting_of_stuck ?_ _
      simp [counting, henc]

/-- The other calls count nothing. -/
theorem counting_program (cfg : ConnConfig) (id : ℕ) (call : Call B) :
    Follows counting.protocol (fun _ x => x.CanEnd) ⟨false, call.task, false⟩
      (Sys.program cfg id call) := by
  cases call with
  | sendTask t needFlush => exact counting_sendTask cfg.clientId { t with id } needFlush
  | flushReq =>
    refine ⟨Or.inr trivial, fun ok => ?_⟩
    cases ok with
    | true => exact Or.inr rfl
    | false =>
      exact ⟨Or.inr trivial, fun _ => ⟨Or.inr trivial, fun _ => ⟨Or.inr trivial, fun _ =>
        Or.inr rfl⟩⟩⟩
  | ping =>
    refine ⟨Or.inr trivial, fun closed => ?_⟩
    cases closed with
    | true => exact Or.inr rfl
    | false =>
      refine ⟨Or.inr trivial, fun seq => ⟨Or.inr trivial, fun buf => ⟨Or.inr trivial, fun _ => ?_⟩⟩⟩
      change Follows counting.protocol _ ⟨false, .none, false⟩ (TcpClient.writeReq _ .none true >>= _)
      refine (counting_writeReq _ _ _ _).bind fun wrote x hx => ?_
      subst hx
      cases wrote with
      | true => exact Or.inr rfl
      | false => exact ⟨Or.inr trivial, fun _ => Or.inr rfl⟩
  | setErrorAndExit =>
    refine ⟨Or.inr trivial, fun _ => ⟨Or.inr trivial, fun ok => ?_⟩⟩
    cases ok with
    | true => exact ⟨Or.inr trivial, fun _ => Or.inr rfl⟩
    | false => exact Or.inr rfl
  | drop =>
    exact ⟨Or.inr trivial, fun _ => ⟨Or.inr trivial, fun _ => ⟨Or.inr trivial, fun _ =>
      Or.inr rfl⟩⟩⟩

/-! ## The system -/

/-- The task of a call that finds the connection open encodes. -/
def encodesIfOpen (p : Sys B × Counting B) : Label B → Bool
  | .sender _ =>
    match p.1.sender with
    | .running _ (.act .loadClosed _) =>
      p.1.conn.closed || p.2.task.all fun b => decide (ReqHead.Encodes b)
    | _ => true
  | _ => true

namespace Counting.Agrees

variable {cfg : ConnConfig} {c c' : Conn B} {x : Counting B}

/-- One operation of the sender. -/
theorem exec (h : x.Agrees cfg c) {sock : Bool} {o : SendOp B} (hok : counting.protocol.ok x o)
    (hopen : o = .loadClosed → c.closed = false → ∀ b ∈ x.task, ReqHead.Encodes b) {a : o.Res}
    (hexec : SendOp.exec sock o c = (c', some a)) (send : SendPhase) :
    Counting.Agrees cfg { c' with send } (counting.protocol.next x o a) := by
  have hok := hok.resolve_left (by rw [h.free]; exact Bool.false_ne_true)
  cases o with
  | pendingAdd =>
    cases hexec
    refine h.setCount true ?_ send
    rw [show x.counted = false from hok]
    simp only [Bool.false_eq_true, if_false, if_true]
    grind
  | pendingSub =>
    cases hexec
    refine h.setCount false ?_ send
    rw [show x.counted = true from hok]
    simp only [Bool.false_eq_true, if_false, if_true]
    grind
  | regTask t =>
    obtain ⟨timer, hreg, rfl⟩ := SendOp.exec_regTask hexec
    exact h.regTask hok hreg _ send
  | loadClosed =>
    cases hexec
    have hfree : (x.stuck || !c.closed && x.task.any fun b => !decide (ReqHead.Encodes b)) =
        false := by
      rw [h.free]
      rcases hclosed : c.closed with _ | _
      · rcases htask : x.task with _ | b
        · rfl
        · simpa using hopen rfl hclosed b htask
      · rfl
    exact ⟨hfree, h.surplus, h.length_le, h.cap⟩
  | throttle =>
    obtain rfl := SendOp.exec_throttle hexec
    exact h.same rfl
  | stopRegTask =>
    cases hexec
    exact ⟨h.free, h.surplus, h.length_le, h.cap⟩
  | nearlyFull | storeClosed | storeHasErr | seqUpdate | loadBuf | storeBuf _ | writeAll _ | flush
  | shutdownWrite | addTask | errorHandle _ | dropCloseTx =>
    cases hexec
    exact h.same rfl

end Counting.Agrees

theorem counting_sound (cfg : ConnConfig) :
    counting.Sound cfg (fun p l => encodesIfOpen p l = true) (fun x => x.counted = false)
      Counting.CanEnd (fun s x => Counting.Agrees (B := B) cfg s.conn x) where
  call := fun {s x} h hrest call => by
    refine ⟨?_, counting_program cfg s.conn.nextId call⟩
    have hsame : ∀ c' : Conn B, c'.timer = s.conn.timer →
        Counting.Agrees cfg c' ⟨false, call.task, false⟩ := fun c' htimer => by
      refine ⟨rfl, ?_, ?_, ?_⟩
      · rw [htimer, h.surplus, hrest]
      · rw [htimer]
        exact h.length_le
      · rw [htimer]
        exact h.cap
    cases call <;> exact hsame _ rfl
  op := fun {s x sock dropping o k c' a} h hok hsender hcond hexec => by
    refine h.exec hok (fun ho hopen b hb => ?_) hexec _
    subst ho
    simp only [encodesIfOpen, hsender, hopen, Bool.false_or] at hcond
    exact of_decide_eq_true ((Option.all_eq_true _ _).mp hcond b hb)
  finish := fun {s x dropping r} h hend _ => by
    have hcounted : x.counted = false :=
      hend.resolve_left (by rw [h.free]; exact Bool.false_ne_true)
    refine ⟨⟨rfl, ?_, h.length_le, h.cap⟩, rfl⟩
    have := h.surplus
    rw [hcounted] at this
    exact this
  receiver := fun h _ hstep => h.turn hstep.turn
  clean := fun h => h.turn (ClientTaskTimer.turn_cleanPendingTasks _)

/-- **The counter of pending tasks is exact**, also in the middle of a pull: it is
the number of tasks in the channel, and one more while a call has counted a task
that it has neither registered nor taken back. So nobody takes off what is not
there, and when nothing is under way the drain loop leaves. The runs are those in
which every task that finds the connection open encodes; the capacity of the
channel is a `usize`. -/
theorem pendingTaskCount_exact {cfg : ConnConfig} (hcap : 2 * cfg.thresholds < 2 ^ 64) {s : Sys B}
    {x : Counting B}
    (h : Lts.Reach (counting.next cfg) (fun p l => encodesIfOpen p l = true)
      (Sys.init cfg, .none) (s, x)) :
    (∀ n, (s.conn.timer.pullFirst n).pendingTaskCount.toNat =
        (s.conn.timer.pullFirst n).pendingTasks.length + x.counted.toNat) ∧
      (∀ dropping k, s.sender = .running dropping (.act .pendingSub k) →
        0 < s.conn.timer.pendingTaskCount.toNat) ∧
      ((∀ dropping p, s.sender ≠ .running dropping p) → x.counted = false) ∧
      (x.counted = false → s.conn.timer.pendingTasks = [] →
        s.conn.timer.pendingTaskCount = 0 ∧
          (s.receiver = .draining → ∀ tick arrival,
            Sys.next cfg s (.receiver tick arrival) = some { s with receiver := .returned })) := by
  obtain ⟨hagrees, halong⟩ := (counting_sound cfg).reach (.new cfg) rfl h
  have hexact := hagrees.toNat_pendingTaskCount hcap
  -- nothing pulled yet
  have hnow : s.conn.timer.pendingTaskCount.toNat =
      s.conn.timer.pendingTasks.length + x.counted.toNat := by
    have := hexact 0
    rwa [ClientTaskTimer.pullFirst, List.take_zero, List.drop_zero] at this
  refine ⟨hexact, fun dropping k hsender => ?_, fun hidle => ?_, fun hcounted hnil => ?_⟩
  · rw [hsender] at halong
    have hcounted : x.counted = true :=
      halong.1.resolve_left (by rw [hagrees.free]; exact Bool.false_ne_true)
    rw [hnow, hcounted]
    exact Nat.succ_pos _
  · rcases hsender : s.sender with _ | ⟨dropping, p⟩ | _
    · rw [hsender] at halong
      exact halong
    · exact absurd hsender (hidle dropping p)
    · rw [hsender] at halong
      exact halong
  · have hzero : s.conn.timer.pendingTaskCount = 0 := by
      rw [hcounted, hnil] at hnow
      exact UInt64.toNat_inj.mp hnow
    refine ⟨hzero, fun hreceiver tick arrival => ?_⟩
    have hstep : Sys.stepReceiver cfg.platform tick arrival s.conn .draining =
        some (s.conn, .returned) := by
      rw [Sys.stepReceiver, hzero]
      rfl
    rw [Sys.next, hreceiver, hstep]
    rfl

/-- A task is sent: it is in the channel, and counted once. -/
theorem pendingTaskCount_exact_sent :
    ∃ (s : Sys APIClientReq) (x : Counting APIClientReq),
      Lts.Reach (counting.next Sys.apiConfig) (fun p l => encodesIfOpen p l = true)
        (Sys.init Sys.apiConfig, .none) (s, x) ∧
      s.conn.timer.pendingTasks.length = 1 ∧ s.conn.timer.pendingTaskCount.toNat = 1 := by
  have hrun : (Lts.exec (counting.next Sys.apiConfig) (fun p l => encodesIfOpen p l = true)
      (Sys.init Sys.apiConfig, .none)
      (.call (.sendTask ⟨0, 0, .new "calc.add" [1]⟩ false) :: Sys.sends 11)).any
      (fun p => decide (p.1.conn.timer.pendingTasks.length = 1 ∧ p.2.counted = false)) = true := by
    decide +kernel
  obtain ⟨⟨s, x⟩, hreach, htest⟩ := Lts.Reach.exists_of_exec hrun
  obtain ⟨hlen, hcounted⟩ := of_decide_eq_true htest
  have hexact := (pendingTaskCount_exact (by decide) hreach).1 0
  rw [ClientTaskTimer.pullFirst, List.take_zero, List.drop_zero, hcounted] at hexact
  exact ⟨s, x, hreach, hlen, hexact.trans hlen⟩

/-! ## The exit that forgets -/

/-- A task that does not encode: its call is over, nothing is in the channel, and
it is still counted. -/
theorem pendingTaskCount_leaks (cfg : ConnConfig) {t : Task B}
    (henc : ¬ ReqHead.Encodes t.body) (needFlush : Bool) :
    ∃ s : Sys B, Lts.Reach (Sys.next cfg) (fun _ _ => True) (Sys.init cfg) s ∧
      s.sender = .idle ∧ s.conn.timer.pendingTasks = [] ∧ s.conn.timer.pendingTaskCount = 1 := by
  let buf : Bytes.HeadedBuf rpcReqHeaderLen := (Conn.new cfg : Conn B).encodeBuf
  let task : Task B := Task.setSeq { t with id := 0 } 1
  let encoded := ReqHead.encode buf cfg.clientId task
  let full := needFlush || decide ((Conn.new cfg : Conn B).thresholds < 1)
  let c : Conn B := { (Conn.new cfg : Conn B) with
    timer := { (Conn.new cfg : Conn B).timer with pendingTaskCount := 1 }
    seq := 2, encodeBuf := encoded.1, nextId := 1, taskSeqs := [1]
    send := ⟨some 0, some 1, false, false⟩ }
  have hencoded : writeEncoded task encoded.1.bytes full encoded.2 >>= finishSend =
      (ret (.error .encode) >>= finishSend : Send B (Except RpcIntErr Unit)) := by
    rw [ReqHead.encode_of_not_encodes buf cfg.clientId task henc]
    rfl
  have hreach : Lts.Reach (Sys.next cfg) (fun _ _ => True) (Sys.init cfg) (Sys.mk c
      (.running false (writeEncoded task encoded.1.bytes full encoded.2 >>= finishSend))
      (.future .suspended (recvOneResp cfg.platform)) false) :=
    Lts.Reach.of_exec (.call (.sendTask t needFlush) :: List.replicate 6 (.sender true)) rfl
  rw [hencoded] at hreach
  exact ⟨_, hreach.of_exec_from (List.replicate 3 (.sender true)) rfl, rfl, rfl, rfl⟩

/-- A message one byte over the limit is sent on a fresh connection. -/
theorem pendingTaskCount_leaks_oversized :
    ∃ s : Sys APIClientReq,
      Lts.Reach (Sys.next Sys.apiConfig) (fun _ _ => True) (Sys.init Sys.apiConfig) s ∧
      s.sender = .idle ∧ s.conn.timer.pendingTasks = [] ∧ s.conn.timer.pendingTaskCount ≠ 0 := by
  obtain ⟨s, hreach, hidle, hnil, hone⟩ := pendingTaskCount_leaks Sys.apiConfig
    (t := ⟨0, 0, oversized⟩) not_encodes_oversized false
  refine ⟨s, hreach, hidle, hnil, ?_⟩
  rw [hone]
  decide

end RazorRpc
