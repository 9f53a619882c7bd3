import RazorRpc.ReqOut
import RazorRpc.Wire

/-!
# Responses on their way in

`Wire` reads a sequence of responses that is given. Here it is only written while it is
read, and a read may fail, be late, or be cut off at any byte. What was decoded before
stays right, and after a failure the rest of the stream does not matter: the task at hand
fails with `IO`, and nothing is read any more.

* `givingUp` — a read that failed is the last thing that is read;
* `InStep.grow`, `InStep.completes` — a stream that grows, and what its responses complete;
* `Receives` — the receive future over such a stream, up to its first failure.

The results are `Receives.op`, `Receives.wait` and `Receives.again`, one for each way the
receive future can move on.
-/

namespace RazorRpc

open Prog ClientStream

variable {B : Type}

/-! ## The end of reading -/

/-- The read of a header failed, or it was none of this protocol. -/
def HeadRead.fails : HeadRead → Bool
  | .ok headBuf =>
    match RespHead.decodeHead headBuf with
    | .ok _ => false
    | .error _ => true
  | .err => true
  | .closed => false

/-- A header that does not fail is no reason to end. -/
theorem HeadRead.ofHead_ne_ended {r : HeadRead} (h : r.fails = false) :
    Heading.ofHead r ≠ .ended := by
  cases r with
  | closed => exact Heading.noConfusion
  | err => cases h
  | ok headBuf =>
    rw [fails] at h
    rw [Heading.ofHead]
    rcases hdec : RespHead.decodeHead headBuf with e | head
    · rw [hdec] at h
      cases h
    · exact Heading.noConfusion

/-- Whether reading has failed; after that a task only fails with `IO`. -/
def givingUp [ClientTask B] : Protocol (RecvOp B) RecvOp.Res Bool where
  ok failed
    | .errorHandle t => failed = true → ∃ t' : Task B, t = t'.setRpcError .io
    | .storeClosed | .dropItem => True
    | _ => failed = false
  next failed
    | .readHead _, r => failed || r.fails
    | .readExact _, r => failed || r.isNone
    | .loadHasErr, hasErr => failed || hasErr
    | _, _ => failed

section GivingUp

variable [ClientTask B]

/-- A part that failed says so. -/
def Admits (ok : Bool) (failed : Bool) : Prop := failed = true → ok = false

open TcpClient

theorem givingUp_recvAndDump (pf : Platform) (l : ℕ) :
    Follows (givingUp (B := B)) Admits false (recvAndDump pf l) := by
  by_cases hpos : 0 < Int32.ofNat l
  · rw [recvAndDump_of_pos hpos]
    split
    · refine ⟨rfl, fun r => ?_⟩
      cases r with
      | none => exact fun _ => rfl
      | some bs => exact Bool.noConfusion
    · exact Bool.noConfusion
  · rw [recvAndDump_of_not_pos hpos]
    refine ⟨rfl, fun r => ?_⟩
    cases r

theorem givingUp_recvError (head : RespHead) (task : Task B) :
    Follows givingUp Admits false (recvError head task) := by
  rw [recvError]
  split
  · exact ⟨Bool.noConfusion, fun _ => Bool.noConfusion⟩
  · split
    · split
      · refine ⟨rfl, fun r => ?_⟩
        cases r
      · refine ⟨rfl, fun r => ?_⟩
        cases r with
        | none => exact ⟨fun _ => ⟨task, rfl⟩, fun _ => fun _ => rfl⟩
        | some buf => exact ⟨Bool.noConfusion, fun _ => Bool.noConfusion⟩
    · refine ⟨rfl, fun r => ?_⟩
      cases r

theorem givingUp_finishTask (head : RespHead) (task : Task B) (msg : List UInt8) :
    Follows givingUp Admits false (finishTask head task msg) := by
  rw [finishTask]
  split
  · rcases task.decodeResp msg with ⟨task', _ | _⟩
    · exact ⟨Bool.noConfusion, fun _ => Bool.noConfusion⟩
    · exact ⟨rfl, fun _ => Bool.noConfusion⟩
  · exact ⟨rfl, fun _ => Bool.noConfusion⟩

theorem givingUp_recvTask (pf : Platform) (head : RespHead) (task : Task B) :
    Follows givingUp Admits false (recvTask pf head task) := by
  rw [recvTask]
  split
  · exact givingUp_recvError head task
  have hmsg : Follows (givingUp (B := B)) (fun msg failed => failed = msg.isNone) false
      (recvMsg head) := by
    rw [recvMsg]
    split
    · refine ⟨rfl, fun r => ?_⟩
      cases r with
      | none => exact rfl
      | some bs => exact rfl
    · exact rfl
  refine hmsg.bind fun msg failed hfailed => ?_
  subst hfailed
  cases msg with
  | none => exact ⟨fun _ => ⟨task, rfl⟩, fun _ => fun _ => rfl⟩
  | some msg =>
    dsimp only
    split
    · rcases task.reserveRespBlob head.blobLen with ⟨task', _ | len⟩
      · exact ⟨Bool.noConfusion, fun _ => givingUp_recvAndDump pf _⟩
      · refine ⟨rfl, fun r => ?_⟩
        cases r with
        | none => exact ⟨fun _ => ⟨task', rfl⟩, fun _ => fun _ => rfl⟩
        | some blob => exact givingUp_finishTask head _ msg
    · exact givingUp_finishTask head task msg

theorem givingUp_recvFound (pf : Platform) (head : RespHead) (found : Option (Task B)) :
    Follows givingUp Admits false (recvFound pf head found) := by
  cases found with
  | none =>
    change Follows givingUp Admits false (recvUnknown pf head)
    rw [recvUnknown]
    split
    · refine ⟨rfl, fun r => ?_⟩
      cases r
    · split
      · exact givingUp_recvAndDump pf _
      · exact Bool.noConfusion
  | some task =>
    refine (givingUp_recvTask pf head task).bind fun ok failed hok => ?_
    exact ⟨trivial, fun _ => hok⟩

/-- A response was read, or reading it ends with an error. -/
def RespAdmits (r : Except RpcIntErr Bool) (failed : Bool) : Prop :=
  failed = true → ∃ e, r = .error e

theorem givingUp_readResp (pf : Platform) (closeCh : Bool) :
    Follows (givingUp (B := B)) RespAdmits false (readResp pf closeCh) := by
  refine ⟨rfl, fun r => ?_⟩
  cases r with
  | closed => exact Bool.noConfusion
  | err => exact fun _ => ⟨.io, rfl⟩
  | ok headBuf =>
    change Follows givingUp _ (HeadRead.ok headBuf).fails
      (recvHead pf (RespHead.decodeHead headBuf))
    rw [HeadRead.fails]
    rcases RespHead.decodeHead headBuf with e | head
    · exact fun _ => ⟨e, rfl⟩
    · have hbody : Follows (givingUp (B := B)) Admits false (recvRespBody pf head) := by
        refine ⟨rfl, fun r => ?_⟩
        -- both polls of `take_task` go on alike
        cases r with
        | some found => exact givingUp_recvFound pf head found
        | none => exact ⟨rfl, fun found => givingUp_recvFound pf head found⟩
      refine hbody.bind fun ok failed hok => ?_
      cases ok with
      | true =>
        intro hfailed
        cases hok hfailed
      | false => exact fun _ => ⟨.io, rfl⟩

/-- A turn that gives up ends with an error. -/
def TurnAdmits (r : Option RpcIntErr) (failed : Bool) : Prop := failed = true → r.isSome = true

theorem givingUp_recvOneResp (pf : Platform) :
    Follows (givingUp (B := B)) TurnAdmits false (recvOneResp pf) := by
  have hclosed : ∀ quit failed, (failed = true → quit = true) →
      Follows (givingUp (B := B)) TurnAdmits failed (recvClosed pf quit) := by
    intro quit failed hquit
    cases quit with
    | true => exact fun _ => rfl
    | false =>
      obtain rfl : failed = false := Bool.eq_false_iff.mpr fun h => Bool.noConfusion (hquit h)
      refine (givingUp_readResp pf false).bind fun r failed hr => ?_
      cases r with
      | error e => exact ⟨trivial, fun _ => fun _ => rfl⟩
      | ok b =>
        intro hfailed
        obtain ⟨e, he⟩ := hr hfailed
        cases he
  refine ⟨rfl, fun closed => ?_⟩
  cases closed with
  | true =>
    refine ⟨rfl, fun empty => ?_⟩
    cases empty with
    | true => exact hclosed true false Bool.noConfusion
    | false =>
      refine ⟨rfl, fun hasErr => ?_⟩
      exact hclosed hasErr hasErr id
  | false =>
    change Follows givingUp _ false (readResp pf true >>= _)
    refine (givingUp_readResp pf true).bind fun r failed hr => ?_
    rcases r with e | _ | _
    · exact fun _ => rfl
    · refine ⟨trivial, fun _ hfailed => ?_⟩
      obtain ⟨e, he⟩ := hr hfailed
      cases he
    · intro hfailed
      obtain ⟨e, he⟩ := hr hfailed
      cases he

end GivingUp

/-! ## A stream that grows -/

namespace InStep

variable {rs : List Resp} {bytes : List UInt8} {heads : List RespHead} {y : Answering B}

/-- Responses are added to the stream. -/
theorem grow (h : InStep rs bytes heads y) (rs' : List Resp) :
    InStep (rs ++ rs') (bytes ++ rs'.flatMap Resp.frame) heads y := by
  obtain ⟨past, rest, rfl, hheads, hlast, hnone, hbytes⟩ := h
  refine ⟨past, rest ++ rs', List.append_assoc _ _ _, hheads, hlast, hnone, ?_⟩
  rw [← List.append_assoc, hbytes, List.flatMap_append, List.append_assoc]

/-- A task is completed by the response whose header was read for it. -/
theorem completes [ClientTask B] (h : InStep rs bytes heads y)
    (hread : ∀ head ∈ y.head, y.read.length ≤ head.bodyLen) {t : Task B} (ht : y.task = some t)
    (hseq : ∃ head ∈ y.head, head.seq = t.seq) {d : Completion B} (hd : y.Answers d) :
    ∃ r ∈ rs, r.seq = t.seq ∧ d = r.body.complete t := by
  obtain ⟨past, rest, rfl, rfl, hlast, -, hbytes⟩ := h
  obtain ⟨head, hhead, task, htask, hcomplete⟩ := hd
  obtain rfl : t = task := Option.some.inj (ht.symm.trans htask)
  obtain ⟨head', hhead', hseq⟩ := hseq
  obtain rfl : head = head' := Option.some.inj (hhead.symm.trans hhead')
  rcases List.eq_nil_or_concat' past with rfl | ⟨before, r, rfl⟩
  · cases hhead.symm.trans hlast
  rw [List.getLast?_concat] at hlast hbytes
  obtain rfl : head = r.head := Option.some.inj (hhead.symm.trans hlast)
  -- what was read is the beginning of its payload
  have hstarts : y.read <+: r.body.payload := by
    refine List.prefix_of_prefix_length_le ⟨bytes, hbytes⟩ (List.prefix_append _ _) ?_
    rw [← r.bodyLen_head]
    exact hread _ hhead
  refine ⟨r, ?_, r.head_seq.symm.trans hseq, hcomplete r rfl hstarts⟩
  exact List.mem_append_left _ (List.mem_append_right _ (List.mem_singleton_self _))

end InStep

namespace Wire

/-- With more bytes behind those that are there. -/
def ahead (w : Wire) (future : List UInt8) : Wire := ⟨w.taken, w.incoming ++ future⟩

theorem bytes_ahead (w : Wire) (future : List UInt8) :
    (w.ahead future).bytes = w.bytes ++ future :=
  (List.append_assoc _ _ _).symm

end Wire

/-! ## The receive future -/

variable [ClientTask B]

/-- The receive future, over the responses `rs`, of which the last bytes, `future`, are not
on the way yet. Until it has failed, it is in step with them, and the task at hand is the
one its last header names. -/
structure Receives (rs : List Resp) (future : List UInt8) (c : Conn B) (w : Wire)
    (p : Recv B (Option RpcIntErr)) (y : Answering B) (failed : Bool) (heads : List RespHead) :
    Prop where
  answers : Follows answering Answering.Ends y p
  gives : Follows givingUp TurnAdmits failed p
  taken : w.taken.length ≤ Recv.wants p
  excused : failed = false → y.excused = false
  read : failed = false → ∀ head ∈ y.head, y.read.length ≤ head.bodyLen
  task : failed = false → ∀ t ∈ y.task, t ∈ c.registered ∧ ∃ head ∈ y.head, head.seq = t.seq
  inStep : failed = false → InStep rs (w.bytes ++ future) heads y

namespace Receives

variable {rs : List Resp} {future : List UInt8} {c c' : Conn B} {w : Wire}
  {p : Recv B (Option RpcIntErr)} {y : Answering B} {failed : Bool} {heads : List RespHead}

/-- After a failure only the program matters. -/
theorem of_failed (hanswers : Follows answering Answering.Ends y p)
    (hgives : Follows givingUp TurnAdmits true p) (htaken : w.taken.length ≤ Recv.wants p) :
    Receives rs future c w p y true heads :=
  ⟨hanswers, hgives, htaken, Bool.noConfusion, Bool.noConfusion, Bool.noConfusion,
    Bool.noConfusion⟩

/-- Before the first turn. -/
theorem start {pf : Platform} (halloc : ∀ n, 0 < n → pf.alloc n = true)
    (hreserve : ReservesExactly B) (c : Conn B) :
    Receives [] [] c ⟨[], []⟩ (recvOneResp pf) Answering.none false [] := by
  have hwhole : (Answering.none : Answering B).Whole := ⟨rfl, (fun _ h => by cases h)⟩
  refine ⟨answering_recvOneResp halloc hreserve hwhole, givingUp_recvOneResp pf, Nat.zero_le _,
    fun _ => rfl, fun _ _ h => ?_, fun _ _ h => ?_, fun _ => ?_⟩
  · cases h
  · cases h
  · exact ⟨[], [], rfl, rfl, rfl, fun _ => rfl, rfl⟩

/-- The shared state changes, and registrations stay. -/
theorem congr (h : Receives rs future c w p y failed heads)
    (hregistered : c.registered ⊆ c'.registered) : Receives rs future c' w p y failed heads :=
  ⟨h.answers, h.gives, h.taken, h.excused, h.read,
    fun hfailed t ht => (h.task hfailed t ht).imp_left fun ht => hregistered ht, h.inStep⟩

/-- Bytes of the stream get on their way, and the stream grows. -/
theorem grow (h : Receives rs future c w p y failed heads) (rs' : List Resp)
    {more future' : List UInt8} (hbytes : future ++ rs'.flatMap Resp.frame = more ++ future') :
    Receives (rs ++ rs') future' c ⟨w.taken, w.incoming ++ more⟩ p y failed heads := by
  refine ⟨h.answers, h.gives, h.taken, h.excused, h.read, h.task, fun hfailed => ?_⟩
  have hgrown := (h.inStep hfailed).grow rs'
  have hsame : w.bytes ++ future ++ rs'.flatMap Resp.frame =
      (Wire.mk w.taken (w.incoming ++ more)).bytes ++ future' := by
    simp only [Wire.bytes, List.append_assoc, hbytes]
  rw [hsame] at hgrown
  exact hgrown

/-- Another turn begins. -/
theorem again {pf : Platform} (halloc : ∀ n, 0 < n → pf.alloc n = true)
    (hreserve : ReservesExactly B) (h : Receives rs future c w (.ret none) y failed heads) :
    Receives rs future c w (recvOneResp pf) y failed heads := by
  have hfailed : failed = false := Bool.eq_false_iff.mpr fun hfailed => by
    cases h.gives hfailed
  subst hfailed
  have hexcused : ¬ y.excused = true := by
    rw [h.excused rfl]
    exact Bool.noConfusion
  obtain ⟨hwhole, -⟩ := h.answers.resolve_left hexcused
  exact ⟨answering_recvOneResp halloc hreserve hwhole, givingUp_recvOneResp pf,
    Nat.le_trans h.taken (Nat.zero_le _), h.excused, h.read, h.task, h.inStep⟩

variable {o : RecvOp B} {next : o.Res → Recv B (Option RpcIntErr)}

/-- There is no panic. -/
theorem not_panic (h : Receives rs future c w (.act o next) y failed heads) : o ≠ .panic := by
  rintro rfl
  have hfailed : failed = false := h.gives.1
  have hok := h.answers.1.resolve_left (by rw [h.excused hfailed]; exact Bool.noConfusion)
  exact hok

/-- An operation waits. -/
theorem wait (h : Receives rs future c w (.act o next) y failed heads)
    (hregistered : c.registered ⊆ c'.registered) (n : Option ℕ) :
    Receives rs future c' (w.feed o n) (.act o next) y failed heads := by
  refine ⟨h.answers, h.gives, Wire.length_taken_feed h.taken n, h.excused, h.read,
    fun hfailed t ht => (h.task hfailed t ht).imp_left fun ht => hregistered ht, ?_⟩
  rw [w.bytes_feed]
  exact h.inStep

omit [ClientTask B] in
/-- A header that can be made out is that of a response. -/
theorem readHead_cases {cancellable : Bool} (h : InStep rs w.bytes heads y) (hwhole : y.Whole)
    {n : Option ℕ} {a : HeadRead}
    (hexec : RecvOp.exec ((.readHead cancellable : RecvOp B).sees w n) (.readHead cancellable) c =
      (c', some a)) (hfails : a.fails = false) :
    a = .closed ∨ ∃ r : Resp, a = .ok r.head.toBytes := by
  rcases (.readHead cancellable : RecvOp B).sees_cases w n with
    ⟨hsees, hlen⟩ | ⟨hsees, -⟩ | ⟨hsees, -⟩
  · have hlen : w.taken.length = rpcRespHeaderLen := hlen
    rw [hsees] at hexec
    simp only [RecvOp.exec, if_pos hlen] at hexec
    cases hexec
    obtain ⟨r, -, hbs, -⟩ := h.readHead hwhole hlen
    exact Or.inr ⟨r, congrArg _ hbs⟩
  · rw [hsees] at hexec
    simp only [RecvOp.exec] at hexec
    split at hexec
    · cases hexec
      exact Or.inl rfl
    · cases hexec
  · rw [hsees] at hexec
    cases hexec
    cases hfails

/-- An operation that did not fail was not late. -/
theorem calm_of_answered {n : Option ℕ} {a : o.Res}
    (hexec : RecvOp.exec (o.sees w n) o c = (c', some a))
    (hgives : givingUp.next false o a = false) :
    ∃ n', o.calm n' = true ∧ o.sees w n = o.sees w n' := by
  cases o with
  | readExact m =>
    cases n with
    | some n => exact ⟨some n, rfl, rfl⟩
    | none =>
      rcases (.readExact m : RecvOp B).sees_cases w none with
        ⟨hsees, hlen⟩ | ⟨hsees, -⟩ | ⟨hsees, -⟩
      · exact ⟨some 0, rfl, hsees.trans (if_pos hlen).symm⟩
      · rw [hsees] at hexec
        cases hexec
      · rw [hsees] at hexec
        cases hexec
        cases hgives
  | _ => exact ⟨n, rfl, rfl⟩

omit [ClientTask B] in
/-- The task that is taken is the one asked for. -/
theorem take {seq : UInt64} (hexcused : y.excused = false) (hfresh : y.Fresh seq)
    {timer : ClientTaskTimer B} {found : Option (Task B)}
    (htakes : ClientTaskTimer.Takes seq.toNat c.timer (timer, some found)) :
    (y.take seq found).excused = false ∧
      (y.take seq found).head = y.head ∧ (y.take seq found).read = y.read ∧
      ∀ t ∈ (y.take seq found).task, t ∈ c.timer.live ∧ ∃ head ∈ y.head, head.seq = t.seq := by
  obtain ⟨-, -, head, hhead, rfl⟩ := hfresh
  cases found with
  | none => exact ⟨hexcused, rfl, rfl, (fun _ h => by cases h)⟩
  | some t =>
    obtain ⟨hkey, hlive⟩ := htakes
    have hseq : t.seq = head.seq := UInt64.toNat_inj.mp hkey
    rw [Answering.take, Option.all_some, decide_eq_true hseq, if_pos rfl]
    refine ⟨hexcused, rfl, rfl, fun t' ht' => ?_⟩
    obtain rfl : t = t' := Option.some.inj ht'
    exact ⟨hlive.mem_iff.mpr List.mem_cons_self, head, hhead, hseq.symm⟩

/-- What an operation that did not fail makes of the response at hand. -/
theorem exec (h : Receives rs future c w (.act o next) y false heads) (inv : c.Inv)
    (hlive : c.timer.live ⊆ c.registered) {n : Option ℕ} {a : o.Res}
    (hexec : RecvOp.exec (o.sees (w.feed o n) n) o c = (c', some a))
    (hgives : givingUp.next false o a = false) :
    (answering.next y o a).excused = false ∧
      (∀ head ∈ (answering.next y o a).head,
        (answering.next y o a).read.length ≤ head.bodyLen) ∧
      ∀ t ∈ (answering.next y o a).task,
        t ∈ c.registered ∧ ∃ head ∈ (answering.next y o a).head, head.seq = t.seq := by
  have hexcused := h.excused rfl
  have hread := h.read rfl
  have htask := h.task rfl
  have hok := h.answers.1.resolve_left (by rw [hexcused]; exact Bool.noConfusion)
  obtain ⟨hi, htimer, -⟩ := inv.timer
  have htake : ∀ {seq : UInt64} {timer : ClientTaskTimer B} {found : Option (Task B)},
      y.Fresh seq → ClientTaskTimer.Takes seq.toNat c.timer (timer, some found) →
      (y.take seq found).excused = false ∧
        (∀ head ∈ (y.take seq found).head, (y.take seq found).read.length ≤ head.bodyLen) ∧
        ∀ t ∈ (y.take seq found).task,
          t ∈ c.registered ∧ ∃ head ∈ (y.take seq found).head, head.seq = t.seq := by
    intro seq timer found hfresh htakes
    obtain ⟨hexcused, hhead, hsame, htask⟩ := take hexcused hfresh htakes
    rw [hhead, hsame]
    exact ⟨hexcused, hread, fun t ht => (htask t ht).imp_left fun ht => hlive ht⟩
  cases o with
  | readHead cancellable =>
    have hinStep := h.inStep rfl
    rw [← w.bytes_feed (.readHead cancellable : RecvOp B) n, ← Wire.bytes_ahead] at hinStep
    rcases readHead_cases hinStep hok.1 hexec hgives with rfl | ⟨r, rfl⟩
    · exact ⟨hexcused, hread, htask⟩
    · change (y.readHead cancellable (.ok r.head.toBytes)).excused = false ∧ _
      simp only [answering, Answering.readHead, r.decodeHead_toBytes, if_pos r.regular]
      exact ⟨hexcused, fun _ _ => Nat.zero_le _, (fun _ ht => by cases ht)⟩
  | readExact m =>
    obtain ⟨head, hhead, hlen⟩ := hok
    cases a with
    | none => cases hgives
    | some bs =>
      have hbs : bs.length = m := by
        rcases (.readExact m : RecvOp B).sees_cases (w.feed (.readExact m : RecvOp B) n) n with
          ⟨hsees, hlen⟩ | ⟨hsees, -⟩ | ⟨hsees, -⟩
        · rw [hsees] at hexec
          simp only [RecvOp.exec] at hexec
          split at hexec
          · rename_i hlen
            cases hexec
            exact hlen
          · cases hexec
        · rw [hsees] at hexec
          cases hexec
        · rw [hsees] at hexec
          cases hexec
      simp only [answering, Answering.readExact, if_pos hbs]
      refine ⟨hexcused, fun head' hhead' => ?_, htask⟩
      obtain rfl : head = head' := Option.some.inj (hhead.symm.trans hhead')
      rw [List.length_append, hbs]
      exact hlen
  | takeTask seq =>
    have hfound : (c.timer.takeTask seq.toNat).2 = a := Option.some.inj (congrArg Prod.snd hexec)
    cases a with
    | none => exact ⟨hexcused, hread, htask⟩
    | some found =>
      have htakes : ClientTaskTimer.Takes seq.toNat c.timer
          ((c.timer.takeTask seq.toNat).1, (c.timer.takeTask seq.toNat).2) :=
        (htimer.takeTask seq.toNat).2
      rw [hfound] at htakes
      exact htake hok htakes
  | resumeTakeTask seq =>
    have hfound : (c.timer.resumeTakeTask seq.toNat).2 = some a := congrArg Prod.snd hexec
    have htakes : ClientTaskTimer.Takes seq.toNat c.timer
        ((c.timer.resumeTakeTask seq.toNat).1, (c.timer.resumeTakeTask seq.toNat).2) :=
      (htimer.resumeTakeTask seq.toNat).2
    rw [hfound] at htakes
    exact htake hok htakes
  | loadHasErr =>
    cases a with
    | true => cases hgives
    | false => exact ⟨hexcused, hread, htask⟩
  | done t | errorHandle t => exact ⟨hexcused, hread, (fun _ ht => by cases ht)⟩
  | panic => cases a
  | _ => exact ⟨hexcused, hread, htask⟩

/-- An operation is answered. -/
theorem op (h : Receives rs future c w (.act o next) y failed heads) (inv : c.Inv)
    (hlive : c.timer.live ⊆ c.registered) {n : Option ℕ}
    (hgentle : o.gentle c (w.feed o n) = true) {a : o.Res}
    (hexec : RecvOp.exec (o.sees (w.feed o n) n) o c = (c', some a)) :
    Receives rs future c' ((w.feed o n).answered (some a)) (next a) (answering.next y o a)
      (givingUp.next failed o a) (heads ++ (o.headRead (o.sees (w.feed o n) n)).toList) := by
  have hanswers := h.answers.step a
  have hgives := h.gives.step a
  rcases Bool.eq_false_or_eq_true (givingUp.next failed o a) with hfailed' | hfailed'
  · rw [hfailed'] at hgives ⊢
    exact of_failed hanswers hgives (Nat.zero_le _)
  have hfailed : failed = false := by
    cases failed with
    | false => rfl
    | true =>
      cases o <;> cases hfailed'
  subst hfailed
  have hexcused := h.excused rfl
  obtain ⟨hexcused', hread', htask'⟩ := h.exec inv hlive hexec hfailed'
  obtain ⟨-, -, hregistered, -⟩ := RecvOp.exec_shared hexec
  refine ⟨hanswers, hgives, Nat.zero_le _, fun _ => hexcused', fun _ => hread', fun _ t ht => ?_,
    fun _ => ?_⟩
  · rw [hregistered]
    exact htask' t ht
  -- the bytes behind those on the way make no difference to a read
  have hinStep := h.inStep rfl
  rw [← w.bytes_feed o n, ← Wire.bytes_ahead] at hinStep
  obtain ⟨n', hcalm, hsees⟩ := calm_of_answered hexec hfailed'
  rw [hsees] at hexec ⊢
  have hended : heading.next .between o a ≠ .ended := by
    cases o with
    | readHead cancellable => exact HeadRead.ofHead_ne_ended hfailed'
    | takeTask seq => cases a <;> exact Heading.noConfusion
    | _ => exact Heading.noConfusion
  have hinStep' := RecvOp.inStep_exec (w := (w.feed o n).ahead future) (q := .between) hinStep
    hexcused h.answers.1 hcalm (Wire.length_taken_feed h.taken n) hgentle hexec hended
  exact hinStep'

end Receives

/-! ## Completions -/

/-- The task failed on this side, without an answer. -/
def Completion.Local (d : Completion B) : Prop :=
  ∃ (t : Task B) (e : RpcIntErr), d = .errorHandled (t.setRpcError e) ∧ (e = .io ∨ e = .timeout)

/-- One of the responses completed one of the tasks, the one it is for. -/
def Completion.By (rs : List Resp) (tasks : List (Task B)) (d : Completion B) : Prop :=
  ∃ r ∈ rs, ∃ t ∈ tasks, r.seq = t.seq ∧ d = r.body.complete t

theorem Completion.By.mono {rs rs' : List Resp} {tasks tasks' : List (Task B)} {d : Completion B}
    (h : d.By rs tasks) (hrs : rs ⊆ rs') (htasks : tasks ⊆ tasks') : d.By rs' tasks' := by
  obtain ⟨r, hr, t, ht, hd⟩ := h
  exact ⟨r, hrs hr, t, htasks ht, hd⟩

/-- A second passes: who is late fails. -/
theorem Conn.fails_timeReach {c : Conn B} :
    ∀ d ∈ c.timeReach.completed, d ∈ c.completed ∨ d.Local := by
  obtain ⟨queue, late, seq, hadjust, -⟩ := c.timer.adjustTaskQueue_spec
  intro d hd
  rcases List.mem_append.mp hd with hd | hd
  · exact Or.inl hd
  · rw [hadjust] at hd
    obtain ⟨t, ht, rfl⟩ := List.mem_map.mp hd
    obtain ⟨t', -, rfl⟩ := List.mem_map.mp ht
    exact Or.inr ⟨t', .timeout, rfl, Or.inr rfl⟩

/-- All that is registered fails. -/
theorem Conn.fails_clean {c : Conn B} :
    ∀ d ∈ c.clean.completed, d ∈ c.completed ∨ d.Local := by
  obtain ⟨-, hfailed, -⟩ := c.timer.cleanPendingTasks_spec
  intro d hd
  rcases List.mem_append.mp hd with hd | hd
  · exact Or.inl hd
  · obtain ⟨t, ht, rfl⟩ := List.mem_map.mp hd
    obtain ⟨t', -, rfl⟩ := List.mem_map.mp (hfailed.mem_iff.mp ht)
    exact Or.inr ⟨t', .io, rfl, Or.inl rfl⟩

/-- The receive loop, over the responses `rs`. -/
def Receiver.Reads (rs : List Resp) (future : List UInt8) (c : Conn B) (w : Wire) :
    Receiver B → Prop
  | .future _ p => ∃ y failed heads, Receives rs future c w p y failed heads
  | .panicked => False
  | _ => True

section

variable {rs : List Resp} {future : List UInt8} {c c' : Conn B} {w w' : Wire} {p p' : Receiver B}

/-- What an operation completes. -/
theorem Receives.completes {o : RecvOp B} {next : o.Res → Recv B (Option RpcIntErr)}
    {y : Answering B} {failed : Bool} {heads : List RespHead}
    (h : Receives rs future c w (.act o next) y failed heads) {arrival : Arrival}
    {a : Option o.Res} (hexec : RecvOp.exec arrival o c = (c', a)) :
    ∀ d ∈ c'.completed, d ∈ c.completed ∨ d.Local ∨ d.By rs c.registered := by
  -- until reading has failed, by the response at hand
  have hanswers : failed = false → ∀ d : Completion B, y.Answers d → d.By rs c.registered := by
    intro hfailed d hd
    obtain ⟨-, -, task, htask, -⟩ := id hd
    obtain ⟨hregistered, hseq⟩ := h.task hfailed task htask
    obtain ⟨r, hr, hrseq, hcomplete⟩ :=
      (h.inStep hfailed).completes (h.read hfailed) htask hseq hd
    exact ⟨r, hr, task, hregistered, hrseq, hcomplete⟩
  obtain rfl : (RecvOp.exec arrival o c).1 = c' := congrArg Prod.fst hexec
  intro d hd
  cases o with
  | done t =>
    rcases List.mem_append.mp hd with hd | hd
    · exact Or.inl hd
    · have hfailed : failed = false := h.gives.1
      have hok := h.answers.1.resolve_left (by rw [h.excused hfailed]; exact Bool.noConfusion)
      rw [List.mem_singleton.mp hd]
      exact Or.inr (Or.inr (hanswers hfailed _ hok))
  | errorHandle t =>
    rcases List.mem_append.mp hd with hd | hd
    · exact Or.inl hd
    · rw [List.mem_singleton.mp hd]
      cases failed with
      | true =>
        obtain ⟨t', rfl⟩ := h.gives.1 rfl
        exact Or.inr (Or.inl ⟨t', .io, rfl, Or.inl rfl⟩)
      | false =>
        have hok := h.answers.1.resolve_left (by rw [h.excused rfl]; exact Bool.noConfusion)
        exact Or.inr (Or.inr (hanswers rfl _ hok))
  | readHead cancellable =>
    rw [RecvOp.exec_readHead] at hd
    exact Or.inl hd
  | readExact n =>
    rw [RecvOp.exec_readExact] at hd
    exact Or.inl hd
  | _ => exact Or.inl hd

namespace Receiver.Reads

/-- What a step of the receive loop completes. -/
theorem completes (h : p.Reads rs future c w) {pf : Platform} {arrival : Arrival}
    (hstep : Sys.ReceiverStep pf arrival c p c' p') :
    ∀ d ∈ c'.completed, d ∈ c.completed ∨ d.Local ∨ d.By rs c.registered := by
  cases hstep with
  | op hexec =>
    obtain ⟨y, failed, heads, hreceives⟩ := h
    have hcompletes := hreceives.completes hexec
    exact hcompletes
  | wait hexec =>
    obtain ⟨y, failed, heads, hreceives⟩ := h
    exact hreceives.completes hexec
  | tick p => exact fun d hd => (Conn.fails_timeReach d hd).imp_right Or.inl
  | clean => exact fun d hd => (Conn.fails_clean d hd).imp_right Or.inl
  | drain => exact fun d hd => (Conn.fails_clean d hd).imp_right Or.inl
  | stage | giveUp | pull | again | fail | panic | close | leave | wake =>
    exact fun d hd => Or.inl hd

theorem congr (h : p.Reads rs future c w) (hregistered : c.registered ⊆ c'.registered) :
    p.Reads rs future c' w := by
  cases p with
  | future stage prog =>
    obtain ⟨y, failed, heads, hreceives⟩ := h
    exact ⟨y, failed, heads, hreceives.congr hregistered⟩
  | panicked => exact h
  | failed | cleaning | draining | sleeping | returned => exact trivial

theorem grow (h : p.Reads rs future c w) (rs' : List Resp) {more future' : List UInt8}
    (hbytes : future ++ rs'.flatMap Resp.frame = more ++ future') :
    p.Reads (rs ++ rs') future' c ⟨w.taken, w.incoming ++ more⟩ := by
  cases p with
  | future stage prog =>
    obtain ⟨y, failed, heads, hreceives⟩ := h
    exact ⟨y, failed, heads, hreceives.grow rs' hbytes⟩
  | panicked => exact h
  | failed | cleaning | draining | sleeping | returned => exact trivial

/-- A step of the receive loop, given what becomes of the operation it is at. -/
theorem step {pf : Platform} (halloc : ∀ n, 0 < n → pf.alloc n = true)
    (hreserve : ReservesExactly B) (h : p.Reads rs future c w) {arrival : Arrival}
    (hstep : Sys.ReceiverStep pf arrival c p c' p') (hidle : p.op = none → w' = w)
    (hop : ∀ o next c₁ a, p = .future .polling (.act o next) →
      RecvOp.exec arrival o c = (c₁, some a) →
      ∃ y failed heads, Receives rs future c₁ w' (next a) y failed heads)
    (hwait : ∀ o next c₁, p = .future .polling (.act o next) →
      RecvOp.exec arrival o c = (c₁, none) →
      ∃ y failed heads, Receives rs future c₁ w' (.act o next) y failed heads) :
    p'.Reads rs future c' w' := by
  have hregistered : c.registered ⊆ c'.registered := by
    rw [hstep.requests.2.1]
    exact List.Subset.refl _
  cases hstep with
  | @stage stage stage' prog hstage =>
    have hnone : (Receiver.future stage prog).op = none := by
      cases stage with
      | polling => exact absurd rfl hstage.2.1
      | _ => rfl
    rw [hidle hnone]
    exact h
  | tick prog =>
    rw [hidle rfl]
    exact Reads.congr (p := .future .ticking prog) h hregistered
  | pull prog =>
    rw [hidle rfl]
    exact Reads.congr (p := .future .pulling prog) h hregistered
  | again =>
    rw [hidle rfl]
    obtain ⟨y, failed, heads, hreceives⟩ := h
    exact ⟨y, failed, heads, hreceives.again halloc hreserve⟩
  | panic next =>
    obtain ⟨y, failed, heads, hreceives⟩ := h
    exact hreceives.not_panic rfl
  | op hexec =>
    obtain ⟨y, failed, heads, hreceives⟩ := hop _ _ _ _ rfl hexec
    exact ⟨y, failed, heads, hreceives.congr (List.Subset.refl _)⟩
  | wait hexec => exact hwait _ _ _ rfl hexec
  | giveUp | fail | close | clean | drain | leave | wake => exact trivial

end Receiver.Reads

end

end RazorRpc
