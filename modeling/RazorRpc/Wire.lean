import RazorRpc.Linger

/-!
# The bytes under a read

Responses come as a stream of bytes, and a read takes them off the stream as they
arrive. A read that is polled in vain keeps what it has taken; one that is dropped
(the close channel was faster, or its time is up) takes it along.

* `Wire` — the bytes taken by the read under way, and those to come;
* `heading` — a header that was read is followed by the question for its task, and
  after a header that failed no response is read any more;
* `InStep` — how much of the stream is gone agrees with how far the receive future
  has come with the response it is at.
-/

namespace RazorRpc

open Prog ClientStream

variable {B : Type}

/-! ## Reads -/

/-- The stream of responses, as far as it is not consumed. -/
structure Wire where
  /-- taken by the read under way -/
  taken : List UInt8
  /-- to come -/
  incoming : List UInt8

/-- The number of bytes an operation has to read. -/
def RecvOp.wants : RecvOp B → ℕ
  | .readHead _ => rpcRespHeaderLen
  | .readExact n => n
  | _ => 0

/-- The number of bytes the operation a program is at has to read. -/
def Recv.wants {α : Type} : Recv B α → ℕ
  | .ret _ => 0
  | .act o _ => o.wants

namespace Wire

/-- The bytes that are not consumed. -/
def bytes (w : Wire) : List UInt8 := w.taken ++ w.incoming

/-- At most `n` bytes arrive for a read of `want` bytes, which takes no more than it
needs. -/
def arrive (w : Wire) (want n : ℕ) : Wire :=
  let m := min n (want - w.taken.length)
  ⟨w.taken ++ w.incoming.take m, w.incoming.drop m⟩

/-- An operation is polled: bytes arrive, or (`none`) its time is up. -/
def feed (w : Wire) (o : RecvOp B) : Option ℕ → Wire
  | some n => w.arrive o.wants n
  | none => w

/-- An operation that is answered leaves nothing behind of what it had taken. -/
def answered (w : Wire) {o : RecvOp B} : Option o.Res → Wire
  | some _ => ⟨[], w.incoming⟩
  | none => w

/-- No byte is lost while it arrives. -/
@[simp] theorem bytes_feed (w : Wire) (o : RecvOp B) (n : Option ℕ) :
    (w.feed o n).bytes = w.bytes := by
  cases n with
  | none => rfl
  | some n =>
    rw [feed, arrive, bytes, bytes, List.append_assoc, List.take_append_drop]

theorem length_taken_feed {w : Wire} {o : RecvOp B} (h : w.taken.length ≤ o.wants)
    (n : Option ℕ) : (w.feed o n).taken.length ≤ o.wants := by
  cases n with
  | none => exact h
  | some n =>
    have htake := List.length_take_le (min n (o.wants - w.taken.length)) w.incoming
    rw [feed, arrive, List.length_append]
    omega

end Wire

/-- What an operation sees when its time is up. A header is waited for without a time
limit as long as the close channel is raced. -/
def RecvOp.late : RecvOp B → Arrival
  | .readHead true => .nothing
  | _ => .error

/-- What an operation sees of the bytes taken for it. -/
def RecvOp.sees (o : RecvOp B) (w : Wire) (n : Option ℕ) : Arrival :=
  if w.taken.length = o.wants then .bytes w.taken
  else if n.isNone then o.late else .nothing

/-! ## Headers and tasks -/

/-- Where the receive future is between two reads. -/
inductive Heading : Type where
  /-- no header waits for its task -/
  | between
  /-- a header was read, and its task is asked for -/
  | headed (seq : UInt64)
  /-- no response is read any more -/
  | ended

namespace Heading

/-- After the answer to the read of a header. -/
def ofHead : HeadRead → Heading
  | .ok headBuf =>
    match RespHead.decodeHead headBuf with
    | .ok head => headed head.seq
    | .error _ => ended
  | .err => ended
  | .closed => between

/-- A turn ends without a header that waits; if another turn follows, responses are
still read. -/
def Ends (r : Option RpcIntErr) : Heading → Prop
  | between => True
  | headed _ => False
  | ended => r.isSome = true

end Heading

/-- A header is followed by the question for its task, and nothing is read after a
header that failed. -/
def heading : Protocol (RecvOp B) RecvOp.Res Heading where
  ok
    | .between, .takeTask _ => False
    | .between, .resumeTakeTask _ => False
    | .between, _ => True
    | .headed seq, .takeTask seq' => seq' = seq
    | .headed seq, .resumeTakeTask seq' => seq' = seq
    | .headed _, _ => False
    | .ended, .storeClosed => True
    | .ended, _ => False
  next q
    | .readHead _, r => .ofHead r
    | .takeTask _, some _ => .between
    | .resumeTakeTask _, _ => .between
    | _, _ => q

/-- What the protocol allows, read the other way round. -/
theorem heading_takes {q : Heading} {o : RecvOp B} (h : heading.ok q o) {seq : UInt64}
    (ho : o = .takeTask seq ∨ o = .resumeTakeTask seq) : q = .headed seq := by
  rcases ho with rfl | rfl
  · cases q with
    | between => exact h.elim
    | headed seq' => exact congrArg _ (Eq.symm h)
    | ended => exact h.elim
  · cases q with
    | between => exact h.elim
    | headed seq' => exact congrArg _ (Eq.symm h)
    | ended => exact h.elim

theorem heading_headed {seq : UInt64} {o : RecvOp B} (h : heading.ok (.headed seq) o) :
    o = .takeTask seq ∨ o = .resumeTakeTask seq := by
  cases o with
  | takeTask seq' => exact Or.inl (congrArg _ h)
  | resumeTakeTask seq' => exact Or.inr (congrArg _ h)
  | _ => exact h.elim

theorem heading_ended {o : RecvOp B} (h : heading.ok .ended o) : o = .storeClosed := by
  cases o with
  | storeClosed => rfl
  | _ => exact h.elim

theorem heading_between {q : Heading} {cancellable : Bool}
    (h : heading.ok q (.readHead cancellable : RecvOp B)) : q = .between := by
  cases q with
  | between => rfl
  | headed seq => exact h.elim
  | ended => exact h.elim

/-- The task asked for is that of the header that was read. -/
theorem Heading.ofHead_cases {arrival : Arrival} {cancellable : Bool} {c c' : Conn B} {a : HeadRead}
    (hexec : RecvOp.exec arrival (.readHead cancellable) c = (c', some a)) :
    (∃ head, (.readHead cancellable : RecvOp B).headRead arrival = some head ∧
        ofHead a = .headed head.seq) ∨
      (.readHead cancellable : RecvOp B).headRead arrival = none ∧ ∀ seq, ofHead a ≠ .headed seq := by
  cases arrival with
  | nothing =>
    simp only [RecvOp.exec] at hexec
    split at hexec
    · cases hexec
      refine Or.inr ⟨rfl, ?_⟩
      rintro seq ⟨⟩
    · cases hexec
  | error =>
    cases hexec
    refine Or.inr ⟨rfl, ?_⟩
    rintro seq ⟨⟩
  | bytes bs =>
    simp only [RecvOp.exec] at hexec
    split at hexec
    · rename_i hlen
      cases hexec
      rw [RecvOp.headRead, if_pos hlen, ofHead]
      rcases RespHead.decodeHead bs with e | head
      · refine Or.inr ⟨rfl, ?_⟩
        rintro seq ⟨⟩
      · exact Or.inl ⟨head, rfl, rfl⟩
    · cases hexec

section Headings

open TcpClient

/-- Heading a body asks for no task. -/
theorem heading_ofBody {α : Type} {p : Recv B α} (h : Uses RecvOp.OfBody p) :
    Follows heading (fun _ q => q = .between) .between p := by
  refine h.follows fun o ho => ?_
  cases o with
  | readExact _ | done _ | errorHandle _ | panic => exact ⟨trivial, fun _ => rfl⟩
  | _ => cases ho

variable [ClientTask B]

theorem heading_recvFound (pf : Platform) (head : RespHead) (found : Option (Task B)) :
    Follows heading (fun _ q => q = .between) .between (recvFound pf head found) := by
  cases found with
  | none => exact heading_ofBody (uses_recvUnknown pf head)
  | some task =>
    refine (heading_ofBody (uses_recvTask pf head task)).bind fun r q hq => ?_
    subst hq
    exact ⟨trivial, fun _ => rfl⟩

/-- Without an error the next response can be read. -/
def Heading.RespRead (r : Except RpcIntErr Bool) : Heading → Prop
  | between => True
  | headed _ => False
  | ended => ∃ e, r = .error e

theorem heading_readResp (pf : Platform) (closeCh : Bool) :
    Follows (heading (B := B)) Heading.RespRead .between (readResp pf closeCh) := by
  refine ⟨trivial, fun r => ?_⟩
  cases r with
  | closed => exact trivial
  | err => exact ⟨.io, rfl⟩
  | ok headBuf =>
    change Follows heading _ (Heading.ofHead (.ok headBuf))
      (recvHead pf (RespHead.decodeHead headBuf))
    rw [Heading.ofHead]
    rcases RespHead.decodeHead headBuf with e | head
    · exact ⟨e, rfl⟩
    · have hbody : Follows (heading (B := B)) (fun _ q => q = .between) (.headed head.seq)
          (recvRespBody pf head) := by
        refine ⟨rfl, fun r => ?_⟩
        -- both polls of `take_task` go on alike
        cases r with
        | some found => exact heading_recvFound pf head found
        | none => exact ⟨rfl, fun found => heading_recvFound pf head found⟩
      refine hbody.bind fun ok q hq => ?_
      subst hq
      cases ok with
      | true => exact trivial
      | false => exact trivial

theorem heading_recvClosed (pf : Platform) (quit : Bool) :
    Follows (heading (B := B)) Heading.Ends .between (recvClosed pf quit) := by
  cases quit with
  | true => exact trivial
  | false =>
    refine (heading_readResp pf false).bind fun r q hq => ?_
    cases q with
    | between =>
      cases r with
      | error e => exact ⟨trivial, fun _ => trivial⟩
      | ok _ => exact trivial
    | headed seq => exact hq.elim
    | ended =>
      obtain ⟨e, rfl⟩ := hq
      exact ⟨trivial, fun _ => rfl⟩

theorem heading_recvOneResp (pf : Platform) :
    Follows (heading (B := B)) Heading.Ends .between (recvOneResp pf) := by
  refine ⟨trivial, fun closed => ?_⟩
  cases closed with
  | false =>
    change Follows heading _ .between (readResp pf true >>= _)
    refine (heading_readResp pf true).bind fun r q hq => ?_
    cases q with
    | between =>
      rcases r with e | _ | _
      · exact trivial
      · exact ⟨trivial, fun _ => trivial⟩
      · exact trivial
    | headed seq => exact hq.elim
    | ended =>
      obtain ⟨e, rfl⟩ := hq
      exact rfl
  | true =>
    refine ⟨trivial, fun empty => ?_⟩
    cases empty with
    | true => exact heading_recvClosed pf true
    | false => exact ⟨trivial, fun hasErr => heading_recvClosed pf hasErr⟩

end Headings

/-! ## In step -/

/-- Of the responses, `past` are decoded and `rest` are to come; of the last one
decoded, what was read after its header is gone. -/
def InStep (rs : List Resp) (bytes : List UInt8) (heads : List RespHead) (y : Answering B) : Prop :=
  ∃ past rest, rs = past ++ rest ∧ heads = past.map Resp.head ∧
    y.head = past.getLast?.map Resp.head ∧ (y.head = none → y.read = []) ∧
    y.read ++ bytes = past.getLast?.elim [] (·.body.payload) ++ rest.flatMap Resp.frame

namespace InStep

variable {rs : List Resp} {bytes bs inc : List UInt8} {heads : List RespHead} {y y' : Answering B}

theorem congr (h : InStep rs bytes heads y) (hhead : y'.head = y.head) (hread : y'.read = y.read) :
    InStep rs bytes heads y' := by
  rw [InStep, hhead, hread]
  exact h

theorem heads_eq (h : InStep rs bytes heads y) : heads = (rs.take heads.length).map Resp.head := by
  obtain ⟨past, rest, rfl, rfl, -⟩ := h
  rw [List.length_map, List.take_left]

/-- Between two responses, the frames to come are whole. -/
theorem whole (h : InStep rs bytes heads y) (hwhole : y.Whole) :
    bytes = (rs.drop heads.length).flatMap Resp.frame := by
  obtain ⟨past, rest, rfl, rfl, hhead, hnone, hbytes⟩ := h
  rw [List.length_map, List.drop_left]
  rcases hlast : past.getLast? with _ | r
  · rw [hlast] at hhead hbytes
    rw [hnone hhead] at hbytes
    exact hbytes
  · rw [hlast] at hhead hbytes
    have hlen : y.read.length = r.body.payload.length :=
      (hwhole.2 r.head hhead).trans r.bodyLen_head
    exact (List.append_inj hbytes hlen).2

/-- The header the receive future is at is the last one. -/
theorem head_mem_drop (h : InStep rs bytes heads y) {head : RespHead} (hhead : y.head = some head)
    {k : ℕ} (hk : k < heads.length) : head ∈ heads.drop k := by
  obtain ⟨past, rest, -, rfl, hlast, -⟩ := h
  rw [List.length_map] at hk
  rcases List.eq_nil_or_concat' past with rfl | ⟨before, r, rfl⟩
  · cases hk
  · rw [List.length_append, List.length_singleton] at hk
    rw [List.getLast?_concat] at hlast
    obtain rfl : head = r.head := Option.some.inj (hhead.symm.trans hlast)
    rw [List.map_append, List.drop_append_of_le_length (by rw [List.length_map]; omega)]
    exact List.mem_append_right _ (List.mem_singleton_self _)

/-- A header is the one of the next response. -/
theorem readHead (h : InStep rs (bs ++ inc) heads y) (hwhole : y.Whole)
    (hlen : bs.length = rpcRespHeaderLen) :
    ∃ r : Resp, rs[heads.length]? = some r ∧ bs = r.head.toBytes ∧
      ∀ y' : Answering B, y'.head = some r.head → y'.read = [] →
        InStep rs inc (heads ++ [r.head]) y' := by
  have hbytes := h.whole hwhole
  obtain ⟨past, rest, rfl, rfl, -⟩ := h
  rw [List.length_map, List.drop_left] at hbytes
  cases rest with
  | nil =>
    obtain rfl := (List.append_eq_nil_iff.mp hbytes).1
    cases hlen
  | cons r rest =>
    rw [List.flatMap_cons, Resp.frame, List.append_assoc] at hbytes
    obtain ⟨rfl, hinc⟩ := List.append_inj hbytes (hlen.trans (RespHead.length_toBytes _).symm)
    refine ⟨r, ?_, rfl, fun y' hhead hread => ⟨past ++ [r], rest, ?_, ?_, ?_, ?_, ?_⟩⟩
    · rw [List.length_map, List.getElem?_append_right (Nat.le_refl _), Nat.sub_self]
      rfl
    · rw [List.append_assoc]
      rfl
    · rw [List.map_append]
      rfl
    · rw [List.getLast?_concat]
      exact hhead
    · exact fun _ => hread
    · rw [List.getLast?_concat, hread]
      exact hinc

/-- Bytes of a body are read. -/
theorem readExact (h : InStep rs (bs ++ inc) heads y) {head : RespHead}
    (hhead : y.head = some head) : InStep rs inc heads { y with read := y.read ++ bs } := by
  obtain ⟨past, rest, hrs, hheads, hlast, -, hbytes⟩ := h
  refine ⟨past, rest, hrs, hheads, hlast, fun hnone => ?_, ?_⟩
  · cases hhead.symm.trans hnone
  · rw [List.append_assoc]
    exact hbytes

variable [ClientTask B]

/-- A task is completed by the response that was decoded last. -/
theorem served (h : InStep rs bytes heads y) {c : Conn B} (hfits : y.Fits c heads) {k : ℕ}
    (hk : k < heads.length) {t : Task B} (ht : y.task = some t) {d : Completion B}
    (hd : y.Answers d) :
    ∃ r ∈ (rs.take heads.length).drop k, r.seq = t.seq ∧ d = r.body.complete t := by
  obtain ⟨past, rest, rfl, rfl, hlast, -, hbytes⟩ := h
  rw [List.length_map] at hk
  rw [List.length_map, List.take_left]
  rcases List.eq_nil_or_concat' past with rfl | ⟨before, r, rfl⟩
  · cases hk
  rw [List.length_append, List.length_singleton] at hk
  rw [List.getLast?_concat] at hlast hbytes
  obtain ⟨head, hhead, task, htask, hcomplete⟩ := hd
  obtain rfl : head = r.head := Option.some.inj (hhead.symm.trans hlast)
  obtain rfl : t = task := Option.some.inj (ht.symm.trans htask)
  -- what was read is the beginning of its payload
  have hprefix : y.read <+: r.body.payload := by
    refine List.prefix_of_prefix_length_le ⟨bytes, hbytes⟩ (List.prefix_append _ _) ?_
    rw [← r.bodyLen_head]
    exact (hfits.head _ hhead).2.2
  obtain ⟨head, hhead', hseq⟩ := hfits.task t ht
  obtain rfl : r.head = head := Option.some.inj (hhead.symm.trans hhead')
  refine ⟨r, ?_, r.head_seq.symm.trans hseq, hcomplete r rfl hprefix⟩
  rw [List.drop_append_of_le_length (by omega)]
  exact List.mem_append_right _ (List.mem_singleton_self _)

end InStep

/-! ## A poll of an operation -/

/-- No body is late. -/
def RecvOp.calm : RecvOp B → Option ℕ → Bool
  | .readExact _, none => false
  | _, _ => true

/-- The close channel does not cut off a header of which bytes are taken. -/
def RecvOp.gentle (c : Conn B) (w : Wire) : RecvOp B → Bool
  | .readHead true => c.closeTx || decide (w.taken.length = rpcRespHeaderLen) || w.taken.isEmpty
  | _ => true

section Poll

variable {rs : List Resp} {w : Wire} {heads : List RespHead} {y : Answering B} {o : RecvOp B}
  {n : Option ℕ}

/-- An operation sees all the bytes it asked for, or nothing, or its time is up. -/
theorem RecvOp.sees_cases (o : RecvOp B) (w : Wire) (n : Option ℕ) :
    (o.sees w n = .bytes w.taken ∧ w.taken.length = o.wants) ∨
      (o.sees w n = .nothing ∧ w.taken.length ≠ o.wants) ∨
      (o.sees w n = .error ∧ n = none ∧ o.late = .error) := by
  rw [sees]
  by_cases hlen : w.taken.length = o.wants
  · rw [if_pos hlen]
    exact Or.inl ⟨rfl, hlen⟩
  · rw [if_neg hlen]
    cases n with
    | some n => exact Or.inr (Or.inl ⟨rfl, hlen⟩)
    | none =>
      have hlate : o.late = .nothing ∨ o.late = .error := by
        unfold late
        split
        · exact Or.inl rfl
        · exact Or.inr rfl
      rcases hlate with hlate | hlate
      · exact Or.inr (Or.inl ⟨hlate, hlen⟩)
      · exact Or.inr (Or.inr ⟨hlate, rfl, hlate⟩)

variable [ClientTask B]

/-- A header that arrives is one of a response. -/
theorem RecvOp.undisturbed_sees (h : InStep rs w.bytes heads y) (hexcused : y.excused = false)
    (hok : answering.ok y o) (hcalm : o.calm n = true) :
    o.undisturbed (o.sees (w.feed o n) n) = true := by
  have hok := hok.resolve_left (by rw [hexcused]; exact Bool.noConfusion)
  rw [← w.bytes_feed o n] at h
  rcases o.sees_cases (w.feed o n) n with ⟨hsees, hlen⟩ | ⟨hsees, -⟩ | ⟨hsees, rfl, hlate⟩
  · rw [hsees]
    cases o with
    | readHead cancellable =>
      have hlen : (w.feed (.readHead cancellable : RecvOp B) n).taken.length = rpcRespHeaderLen := hlen
      obtain ⟨r, -, hbs, -⟩ := h.readHead hok.1 hlen
      rw [undisturbed, if_pos hlen, hbs, r.decodeHead_toBytes]
      exact decide_eq_true r.regular
    | _ => rfl
  · rw [hsees]
    cases o <;> rfl
  · rw [hsees]
    cases o with
    | readHead cancellable =>
      cases cancellable with
      | true => cases hlate
      | false => rfl
    | readExact m => cases hcalm
    | _ => rfl

omit [ClientTask B] in
/-- The wait for a header ends with the header of the next response, or before a byte
of it was taken; or nothing is read any more. -/
theorem RecvOp.inStep_readHead {cancellable : Bool} (h : InStep rs w.bytes heads y)
    (hwhole : y.Whole) {c c' : Conn B}
    (hgentle : gentle c w (.readHead cancellable : RecvOp B) = true) {a : HeadRead}
    (hexec : exec ((.readHead cancellable : RecvOp B).sees w n) (.readHead cancellable) c =
      (c', some a)) (hended : Heading.ofHead a ≠ .ended) :
    InStep rs w.incoming (heads ++ ((.readHead cancellable : RecvOp B).headRead
      ((.readHead cancellable : RecvOp B).sees w n)).toList) (y.readHead cancellable a) := by
  rcases (.readHead cancellable : RecvOp B).sees_cases w n with
    ⟨hsees, hlen⟩ | ⟨hsees, hlen⟩ | ⟨hsees, -⟩
  · have hlen : w.taken.length = rpcRespHeaderLen := hlen
    rw [hsees] at hexec ⊢
    simp only [exec, if_pos hlen] at hexec
    cases hexec
    obtain ⟨r, -, hbs, hnext⟩ := h.readHead hwhole hlen
    rw [headRead, if_pos hlen, Answering.readHead, hbs, r.decodeHead_toBytes]
    dsimp only
    rw [if_pos r.regular]
    exact hnext _ rfl rfl
  · have hshort : ¬ w.taken.length = rpcRespHeaderLen := hlen
    rw [hsees] at hexec ⊢
    simp only [exec] at hexec
    split at hexec
    · rename_i hfired
      cases hexec
      rw [Bool.and_eq_true, Bool.not_eq_true'] at hfired
      obtain ⟨rfl, hclosed⟩ := hfired
      rw [gentle, hclosed, decide_eq_false hshort, Bool.false_or, Bool.false_or,
        List.isEmpty_iff] at hgentle
      rw [Wire.bytes, hgentle] at h
      have hheads : heads ++ ((.readHead true : RecvOp B).headRead .nothing).toList = heads :=
        List.append_nil _
      rw [hheads]
      exact h.congr rfl rfl
    · cases hexec
  · rw [hsees] at hexec
    cases hexec
    exact absurd rfl hended

/-- An operation that is answered. -/
theorem RecvOp.inStep_exec {q : Heading} (h : InStep rs w.bytes heads y)
    (hexcused : y.excused = false) (hok : answering.ok y o) (hcalm : o.calm n = true)
    (htaken : w.taken.length ≤ o.wants) {c c' : Conn B}
    (hgentle : o.gentle c w = true) {a : o.Res}
    (hexec : exec (o.sees w n) o c = (c', some a)) (hended : heading.next q o a ≠ .ended) :
    InStep rs (w.answered (some a)).bytes (heads ++ (o.headRead (o.sees w n)).toList)
      (answering.next y o a) := by
  have hok := hok.resolve_left (by rw [hexcused]; exact Bool.noConfusion)
  by_cases hhead : ∃ cancellable, o = .readHead cancellable
  · obtain ⟨cancellable, rfl⟩ := hhead
    exact inStep_readHead h hok.1 hgentle hexec hended
  have hheads : heads ++ (o.headRead (o.sees w n)).toList = heads := by
    cases o with
    | readHead cancellable => exact absurd ⟨cancellable, rfl⟩ hhead
    | _ => exact List.append_nil _
  rw [hheads]
  by_cases hexact : ∃ m, o = .readExact m
  · obtain ⟨m, rfl⟩ := hexact
    obtain ⟨head, hhead, -⟩ := hok
    rcases (.readExact m : RecvOp B).sees_cases w n with ⟨hsees, hlen⟩ | ⟨hsees, -⟩ | ⟨-, rfl, -⟩
    · have hlen : w.taken.length = m := hlen
      rw [hsees] at hexec
      simp only [exec, if_pos hlen] at hexec
      cases hexec
      change InStep rs w.incoming heads (y.readExact m (some w.taken))
      rw [Answering.readExact, if_pos hlen]
      exact h.readExact hhead
    · rw [hsees] at hexec
      cases hexec
    · cases hcalm
  -- nothing is read
  have hnil : w.taken = [] := by
    rw [← List.length_eq_zero_iff, ← Nat.le_zero]
    cases o with
    | readHead cancellable => exact absurd ⟨cancellable, rfl⟩ hhead
    | readExact m => exact absurd ⟨m, rfl⟩ hexact
    | _ => exact htaken
  rw [Wire.bytes, hnil] at h
  change InStep rs w.incoming heads _
  have htake : ∀ seq found, (y.take seq found).head = y.head ∧ (y.take seq found).read = y.read := by
    intro seq found
    rw [Answering.take]
    split <;> exact ⟨rfl, rfl⟩
  cases o with
  | readHead cancellable => exact absurd ⟨cancellable, rfl⟩ hhead
  | readExact m => exact absurd ⟨m, rfl⟩ hexact
  | takeTask seq =>
    cases a with
    | none => exact h
    | some found => exact h.congr (htake seq found).1 (htake seq found).2
  | resumeTakeTask seq => exact h.congr (htake seq a).1 (htake seq a).2
  | loadHasErr =>
    cases a with
    | true => exact h.congr rfl rfl
    | false => exact h
  | panic => cases a
  | _ => exact h.congr rfl rfl

end Poll

end RazorRpc
