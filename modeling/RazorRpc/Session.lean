import RazorRpc.ReqOut
import RazorRpc.RespIn
import RazorRpc.StreamDrop

/-!
# A client and a server

The two ends of a connection, with the bytes between them. The client writes requests into
its socket and reads responses off the other direction; the server reads requests, has them
handled in any order, and writes the answers. The two run at their own pace, a write may
fail after any byte and so may a read, either side may leave at any time, and tasks time
out.

* `SvrItem.resp?` — the response an answer is meant to be;
* `Session`, `Session.next` — the system;
* `Delivers` — the invariant of the way there: what the server reads are the requests the
  client writes;
* `Tied` — and of the way back: what the client reads are the responses the server writes.

The results are `completed_by_answer`, the meaning of a call, and `requests_in_order`.
-/

namespace RazorRpc

open Bytes Prog ClientStream

/-! ## Answers as responses -/

/-- What an error says. -/
def RespBody.ofError : EncodedErr → RespBody
  | .num n => .errno n
  | .rpc e => .errString e.asBytes
  | .buf b => .errString b
  | .static s => .errString (ofStr s)

namespace Resp

/-- The response that reports an error, if it is small enough. -/
def ofError? (seq : UInt64) (e : EncodedErr) : Option Resp :=
  if h : (RespBody.ofError e).payload.length ≤ i32Max then some ⟨seq, .ofError e, h⟩ else none

theorem ofError?_frame {seq : UInt64} {e : EncodedErr} {r : Resp} (h : ofError? seq e = some r) :
    r.seq = seq ∧ r.frame = (RespHead.ofError seq e).toBytes ++ (RespHead.errString e).getD [] := by
  rw [ofError?] at h
  split at h
  · cases h
    cases e <;> exact ⟨rfl, rfl⟩
  · cases h

/-- The errors of the framework are small enough. -/
theorem isSome_ofError?_rpc (seq : UInt64) (e : RpcIntErr) :
    (ofError? seq (.rpc e)).isSome = true := by
  have hlen : (RespBody.ofError (.rpc e)).payload.length ≤ i32Max := by
    cases e <;> decide
  rw [ofError?, dif_pos hlen]
  rfl

end Resp

/-- The response that carries the result of a task: the message is as long as it says, an error
comes alone, and all of it is small enough. -/
def EncodedResp.resp? (out : EncodedResp) : Option Resp :=
  match out.result with
  | .ok (msgLen, blob) =>
    if FitsHead msgLen blob then
      if h : out.written.length = msgLen ∧
          (RespBody.ok out.written (blob.getD [])).payload.length ≤ i32Max then
        some ⟨out.seq, .ok out.written (blob.getD []), h.2⟩
      else none
    else if out.written = [] then Resp.ofError? out.seq (.rpc .encode)
    else none
  | .error e => if out.written = [] then Resp.ofError? out.seq e else none

namespace SvrItem

variable {T : Type} [ServerTaskEncode T]

/-- The response an answer is meant to be, if its bytes are those of a response. -/
def resp? : SvrItem T → Option Resp
  | .ok task => (ServerTaskEncode.encodeResp task).resp?
  | .error (seq, some e) => Resp.ofError? seq (.rpc e)
  | .error (seq, none) => some ⟨seq, .ok [] [], Nat.zero_le _⟩

/-- Its bytes are the answer's. -/
theorem resp?_frame {item : SvrItem T} {r : Resp} (h : item.resp? = some r) :
    r.seq = item.seq ∧ r.frame = item.frame := by
  rcases item with ⟨seq, _ | e⟩ | task
  · cases h
    refine ⟨rfl, ?_⟩
    exact List.append_nil _
  · exact Resp.ofError?_frame h
  · rcases hres : (ServerTaskEncode.encodeResp task).result with e | ⟨msgLen, blob⟩
    · simp only [resp?, EncodedResp.resp?, hres] at h
      simp only [seq, frame, hres]
      split at h
      · rename_i hnil
        rw [hnil, List.nil_append]
        exact Resp.ofError?_frame h
      · cases h
    · simp only [resp?, EncodedResp.resp?, hres] at h
      simp only [seq, frame, hres]
      split at h
      · rename_i hfit
        split at h
        · rename_i hlen
          cases h
          refine ⟨rfl, ?_⟩
          rw [if_pos hfit, Resp.frame, RespBody.head, RespBody.payload, hlen.1, List.append_assoc]
        · cases h
      · rename_i hfit
        split at h
        · rename_i hnil
          rw [if_neg hfit, hnil, List.nil_append]
          exact Resp.ofError?_frame h
        · cases h

/-- The reader's own answers are responses. -/
theorem isSome_resp?_error (e : UInt64 × Option RpcIntErr) :
    (resp? (.error e : SvrItem T)).isSome = true := by
  obtain ⟨seq, _ | e⟩ := e
  · rfl
  · exact Resp.isSome_ofError?_rpc seq e

/-- The responses of a sequence of answers. -/
def resps (answers : List (ℕ × SvrItem T)) : List Resp := answers.filterMap fun a => a.2.resp?

theorem resps_append (answers answers' : List (ℕ × SvrItem T)) :
    resps (answers ++ answers') = resps answers ++ resps answers' := List.filterMap_append

/-- If all of them are responses, their bytes are those of the responses. -/
theorem frames_resps {answers : List (ℕ × SvrItem T)}
    (h : ∀ a ∈ answers, a.2.resp?.isSome = true) :
    (resps answers).flatMap Resp.frame = SvrConn.frames answers := by
  induction answers with
  | nil => rfl
  | cons a answers ih =>
    obtain ⟨r, hr⟩ := Option.isSome_iff_exists.mp (h a List.mem_cons_self)
    have ih := ih fun a' ha' => h a' (List.mem_cons_of_mem _ ha')
    have hcons : resps (a :: answers) = r :: resps answers := List.filterMap_cons_some hr
    rw [hcons, List.flatMap_cons, (resp?_frame hr).2, ih]
    rfl

end SvrItem

/-! ## The system -/

/-- A client and a server, and the bytes on their way. -/
structure Session (B T : Type) where
  client : Outlet B
  /-- the responses on their way to the client -/
  wire : Wire
  /-- what the client has sent and the server not read -/
  unread : List UInt8
  server : SvrConn T

/-- What happens next. -/
inductive SessionLabel (B T : Type) : Type where
  | call (call : Call B)
  | sender (r : IoResult)
  /-- the receiver goes on; as in `WireLabel` -/
  | receiver (tick : Bool) (bytes : Option ℕ)
  /-- the receiver goes on, and a read fails -/
  | broken (tick : Bool)
  | dropInner
  /-- bytes leave the buffer of the client's socket -/
  | pass (n : ℕ)
  /-- the server reads a request -/
  | serve (d : Dispatched)
  /-- anything else the server does -/
  | server (l : SvrLabel T)

def SvrLabel.isRead {T : Type} : SvrLabel T → Bool
  | read _ _ => true
  | _ => false

/-- What neither reads a request nor has a result is proper. -/
theorem SvrConn.Proper.of_aside {T : Type} [ServerTaskEncode T] {s : SvrConn T} {l : SvrLabel T}
    (hread : l.isRead = false) (hfinish : ∀ i task, l ≠ .finish i task) :
    s.Proper l := by
  cases l with
  | read req d => cases hread
  | finish i task => exact absurd rfl (hfinish i task)
  | readErr | abandon | writer | pass => exact trivial

namespace Session

variable {B T : Type} [ClientTask B] [ServerTaskEncode T]

omit [ClientTask B] [ServerTaskEncode T] in
/-- The receiver and its stream. -/
def wired (s : Session B T) : Wired B := ⟨s.client.sys, s.wire⟩

omit [ClientTask B] [ServerTaskEncode T] in
/-- The stream after a read that failed. -/
def wireBroken (s : Session B T) : Wire :=
  match s.client.sys.receiver.op with
  | some o => s.wire.answered (RecvOp.exec .error o s.client.sys.conn).2
  | none => s.wire

def init (cfg : ConnConfig) : Session B T := ⟨Outlet.init cfg, ⟨[], []⟩, [], SvrConn.init⟩

/-- A step of the client; what it sends is on its way. -/
def moveClient (cfg : ConnConfig) (s : Session B T) (l : OutletLabel B) (wire : Wire) :
    Option (Session B T) :=
  (Outlet.next cfg s.client l).map fun client =>
    { s with
      client, wire
      unread := s.unread ++ client.socket.sent.drop s.client.socket.sent.length }

/-- A step of the server; what it sends is on its way. -/
def moveServer (s : Session B T) (l : SvrLabel T) (unread : List UInt8) : Option (Session B T) :=
  (SvrConn.next s.server l).map fun server =>
    { s with
      server, unread
      wire := ⟨s.wire.taken,
        s.wire.incoming ++ server.socket.sent.drop s.server.socket.sent.length⟩ }

def next (cfg : ConnConfig) (alloc : Int32 → Bool) (s : Session B T) :
    SessionLabel B T → Option (Session B T)
  | .call call => s.moveClient cfg (.call call) s.wire
  | .sender r => s.moveClient cfg (.sender r) s.wire
  | .receiver tick bytes =>
    s.moveClient cfg (.receiver tick (s.wired.arrival bytes))
      (s.wired.wireAfter (.receiver tick bytes))
  | .broken tick => s.moveClient cfg (.receiver tick .error) s.wireBroken
  | .dropInner => s.moveClient cfg .dropInner s.wire
  | .pass n => s.moveClient cfg (.pass n) s.wire
  | .serve d =>
    match TcpServer.readReq alloc s.unread with
    | .ok (req, rest) => s.moveServer (.read req d) rest
    | .error _ => none
  | .server l => if l.isRead then none else s.moveServer l s.unread

/-- The numbers last, tasks keep to the protocol, the close channel does not cut off a header
that has begun to arrive, and the dispatcher is a proper one whose answers are responses. -/
def Fit (s : Session B T) : SessionLabel B T → Prop
  | .call call => s.client.Fit (.call call)
  | .sender r => s.client.Fit (.sender r)
  | .receiver tick bytes => s.wired.gentle (.receiver tick bytes) = true
  | .serve d => d.ok = false → d.kept = false
  | .server (.finish i task) =>
    s.server.Proper (.finish i task) ∧ (SvrItem.resp? (.ok task)).isSome = true
  | _ => True

instance (s : Session B T) : (l : SessionLabel B T) → Decidable (Fit s l)
  | .call call => inferInstanceAs (Decidable (s.client.Fit (.call call)))
  | .sender r => inferInstanceAs (Decidable (s.client.Fit (.sender r)))
  | .receiver tick bytes =>
    inferInstanceAs (Decidable (s.wired.gentle (.receiver tick bytes) = true))
  | .serve d => inferInstanceAs (Decidable (d.ok = false → d.kept = false))
  | .server (.finish i task) => inferInstanceAs (Decidable (s.server.Proper (.finish i task) ∧ _))
  | .server (.read _ _) | .server .readErr | .server (.abandon _) | .server (.writer _)
  | .server (.pass _) | .broken _ | .dropInner | .pass _ => .isTrue trivial

/-- Of this, what requests depend on: the numbers last, and tasks keep to the protocol. -/
def ClientFit (s : Session B T) : SessionLabel B T → Prop
  | .call call => s.client.Fit (.call call)
  | .sender r => s.client.Fit (.sender r)
  | _ => True

instance (s : Session B T) : (l : SessionLabel B T) → Decidable (ClientFit s l)
  | .call call => inferInstanceAs (Decidable (s.client.Fit (.call call)))
  | .sender r => inferInstanceAs (Decidable (s.client.Fit (.sender r)))
  | .receiver _ _ | .broken _ | .dropInner | .pass _ | .serve _ | .server _ => .isTrue trivial

theorem Fit.client {s : Session B T} {l : SessionLabel B T} (h : Fit s l) : ClientFit s l := by
  cases l with
  | call | sender => exact h
  | receiver | broken | dropInner | pass | serve | server => exact trivial

end Session

/-! ## What grows -/

/-- What is sent stays sent. -/
theorem WriteOp.sent_exec (r : IoResult) (o : WriteOp) (s : Socket) :
    s.sent <+: (o.exec r s).1.sent := by
  cases r with
  | done =>
    cases o with
    | writeAll bytes => exact List.prefix_refl _
    | flush => exact List.prefix_append _ _
    | shutdownWrite => exact List.prefix_refl _
  | failed n =>
    cases o with
    | writeAll bytes => exact List.prefix_refl _
    | flush => exact List.prefix_append _ _
    | shutdownWrite => exact List.prefix_refl _

namespace Outlet

variable {B : Type} [ClientTask B] {cfg : ConnConfig} {s s' : Outlet B} {l : OutletLabel B}

theorem sent_grows (h : next cfg s l = some s') : s.socket.sent <+: s'.socket.sent := by
  cases l with
  | sender r =>
    obtain ⟨sys, -, rfl⟩ := Option.map_eq_some_iff.mp h
    change s.socket.sent <+: (s.afterSender r).sent
    unfold afterSender
    split
    · rename_i o k hsender
      cases o with
      | writeAll bytes => exact WriteOp.sent_exec r (.writeAll bytes) s.socket
      | flush => exact WriteOp.sent_exec r .flush s.socket
      | shutdownWrite => exact WriteOp.sent_exec r .shutdownWrite s.socket
      | _ => exact List.prefix_refl _
    · exact List.prefix_refl _
  | pass n =>
    cases h
    exact List.prefix_append _ _
  | call call =>
    obtain ⟨sys, -, rfl⟩ := Option.map_eq_some_iff.mp h
    exact List.prefix_refl _
  | receiver tick arrival =>
    obtain ⟨sys, -, rfl⟩ := Option.map_eq_some_iff.mp h
    exact List.prefix_refl _
  | dropInner =>
    obtain ⟨sys, -, rfl⟩ := Option.map_eq_some_iff.mp h
    exact List.prefix_refl _

/-- The invariant of the connection holds here too. -/
theorem inv_of_reach (h : Lts.Reach (next cfg) Fit (init cfg) s) : s.sys.Inv := by
  refine h.invariant (I := fun s : Outlet B => s.sys.Inv) (Sys.inv_init cfg) ?_
  intro s l s' inv hfit hnext
  cases l with
  | call call =>
    obtain ⟨sys, hsys, rfl⟩ := Option.map_eq_some_iff.mp hnext
    exact inv.call hsys
  | sender r =>
    obtain ⟨sys, hsys, rfl⟩ := Option.map_eq_some_iff.mp hnext
    exact inv.sender_step hfit hsys
  | receiver tick arrival =>
    obtain ⟨sys, hsys, rfl⟩ := Option.map_eq_some_iff.mp hnext
    exact inv.receiver_step hsys
  | dropInner =>
    obtain ⟨sys, hsys, rfl⟩ := Option.map_eq_some_iff.mp hnext
    simp only [Sys.next] at hsys
    split at hsys
    · rename_i hunused
      cases hsys
      rw [Sys.innerUnused, Bool.and_eq_true, Bool.and_eq_true] at hunused
      obtain ⟨hinv, hnil⟩ := inv.conn.clean
      exact ⟨hinv, inv.sender.congr rfl, inv.receiver.congr rfl,
        fun _ => ⟨hunused.1.1, hunused.1.2, hnil⟩⟩
    · cases hsys
  | pass n =>
    cases hnext
    exact inv

/-- What the receive loop sees of a step of the others: registrations, and tasks that fail. -/
theorem aside (h : Lts.Reach (next cfg) Fit (init cfg) s)
    (hl : ∀ tick arrival, l ≠ .receiver tick arrival) (hnext : next cfg s l = some s') :
    s'.sys.receiver = s.sys.receiver ∧ s.sys.conn.registered ⊆ s'.sys.conn.registered ∧
      (s.sys.conn.timer.live ⊆ s.sys.conn.registered →
        s'.sys.conn.timer.live ⊆ s'.sys.conn.registered) ∧
      ∀ d ∈ s'.sys.conn.completed, d ∈ s.sys.conn.completed ∨ d.Local := by
  obtain ⟨ops, q, hsender, -⟩ := orders_of_reach h
  have inv := inv_of_reach h
  cases l with
  | receiver tick arrival => exact absurd rfl (hl tick arrival)
  | call call =>
    obtain ⟨sys, hsys, rfl⟩ := Option.map_eq_some_iff.mp hnext
    obtain ⟨⟨conn, sender, receiver, innerDropped⟩, socket⟩ := s
    cases sender with
    | idle =>
      cases hsys
      cases call <;> exact ⟨rfl, List.Subset.refl _, id, fun d hd => Or.inl hd⟩
    | running dropping p => cases hsys
    | gone => cases hsys
  | sender r =>
    obtain ⟨sys, hsys, rfl⟩ := Option.map_eq_some_iff.mp hnext
    obtain ⟨⟨conn, sender, receiver, innerDropped⟩, socket⟩ := s
    obtain ⟨⟨c, p⟩, hstep, rfl⟩ := Option.map_eq_some_iff.mp hsys
    cases Sys.stepSender_cases hstep with
    | finish dropping res => exact ⟨rfl, List.Subset.refl _, id, fun d hd => Or.inl hd⟩
    | @op dropping o k c' a hexec =>
      cases o with
      | regTask t =>
        obtain ⟨timer, hreg, rfl⟩ := SendOp.exec_regTask hexec
        refine ⟨rfl, List.subset_append_left _ _, fun hlive => ?_, fun d hd => Or.inl hd⟩
        change timer.live ⊆ conn.registered ++ [t]
        rw [ClientTaskTimer.live_regTask hreg]
        exact List.append_subset.mpr ⟨List.Subset.trans hlive (List.subset_append_left _ _),
          List.subset_append_right _ _⟩
      | throttle =>
        obtain rfl := SendOp.exec_throttle hexec
        exact ⟨rfl, List.Subset.refl _, id, fun d hd => Or.inl hd⟩
      | errorHandle t =>
        cases hexec
        have hok : ∃ t' : Task B, t = t'.setRpcError .io := by
          have hok := hsender.1
          cases q <;> exact hok
        obtain ⟨t', rfl⟩ := hok
        refine ⟨rfl, List.Subset.refl _, id, fun d hd => ?_⟩
        rcases List.mem_append.mp hd with hd | hd
        · exact Or.inl hd
        · rw [List.mem_singleton.mp hd]
          exact Or.inr ⟨t', .io, rfl, Or.inl rfl⟩
      | _ =>
        cases hexec
        exact ⟨rfl, List.Subset.refl _, id, fun d hd => Or.inl hd⟩
  | dropInner =>
    obtain ⟨sys, hsys, rfl⟩ := Option.map_eq_some_iff.mp hnext
    simp only [Sys.next] at hsys
    split at hsys
    · cases hsys
      refine ⟨rfl, List.Subset.refl _, fun _ => ?_, Conn.fails_clean⟩
      rw [inv.conn.clean.2]
      exact List.nil_subset _
    · cases hsys
  | pass n =>
    cases hnext
    exact ⟨rfl, List.Subset.refl _, id, fun d hd => Or.inl hd⟩

end Outlet

namespace SvrConn

variable {T : Type} [ServerTaskEncode T] {s s' : SvrConn T} {l : SvrLabel T}

omit [ServerTaskEncode T] in
/-- What an answer adds. -/
theorem send_grows (s : SvrConn T) (i : ℕ) (item : SvrItem T) :
    (s.send i item).socket = s.socket ∧ (s.send i item).reqs = s.reqs ∧
      ∃ new, (s.send i item).answers = s.answers ++ new ∧ ∀ a ∈ new, a.2 = item := by
  rcases s.send_cases i item with ⟨-, hsend⟩ | ⟨-, hsend⟩
  · rw [hsend]
    exact ⟨rfl, rfl, [], (List.append_nil _).symm, fun _ h => absurd h List.not_mem_nil⟩
  · rw [hsend]
    refine ⟨rfl, rfl, [(i, item)], rfl, fun a ha => ?_⟩
    rw [List.mem_singleton.mp ha]

omit [ServerTaskEncode T] in
/-- A request that is read is answered by the reader or not at all. -/
theorem read_grows (s : SvrConn T) (req : RpcSvrReq) (d : Dispatched) :
    (s.read req d).socket = s.socket ∧ (s.read req d).reqs = s.reqs ++ [req] ∧
      ∃ new, (s.read req d).answers = s.answers ++ new ∧ ∀ a ∈ new, ∃ e, a.2 = .error e := by
  have hquick : ∀ (s₁ : SvrConn T) (err : Option RpcIntErr), s₁.socket = s.socket →
      s₁.reqs = s.reqs ++ [req] → s₁.answers = s.answers →
      (s₁.sendQuickResp s.reqs.length req.seq err).socket = s.socket ∧
        (s₁.sendQuickResp s.reqs.length req.seq err).reqs = s.reqs ++ [req] ∧
        ∃ new, (s₁.sendQuickResp s.reqs.length req.seq err).answers = s.answers ++ new ∧
          ∀ a ∈ new, ∃ e, a.2 = .error e := by
    intro s₁ err hsocket hreqs hanswers
    obtain ⟨hsocket', hreqs', new, hnew, hitem⟩ :=
      s₁.send_grows s.reqs.length (.error (req.seq, err))
    exact ⟨hsocket'.trans hsocket, hreqs'.trans hreqs, new, hanswers ▸ hnew,
      fun a ha => ⟨_, hitem a ha⟩⟩
  obtain ⟨kept, ok⟩ := d
  unfold read
  dsimp only
  split
  · exact hquick _ none rfl rfl rfl
  · cases ok with
    | false => cases kept <;> exact hquick _ (some .decode) rfl rfl rfl
    | true =>
      cases kept <;>
        exact ⟨rfl, rfl, [], (List.append_nil _).symm, fun _ h => absurd h List.not_mem_nil⟩

/-- What is sent stays sent; the requests read are those of the reads; and what is answered
is an answer of the reader or the result of a task. -/
theorem next_grows (h : next s l = some s') :
    s.socket.sent <+: s'.socket.sent ∧
      (∃ new, s'.answers = s.answers ++ new ∧ ∀ a ∈ new, (∃ e, a.2 = .error e) ∨
        ∃ i task, l = .finish i task ∧ a.2 = .ok task) ∧
      (l.isRead = false → s'.reqs = s.reqs) ∧
      ∀ req d, l = .read req d → s'.reqs = s.reqs ++ [req] := by
  have hnone : ∃ new, s.answers = s.answers ++ new ∧ ∀ a ∈ new, (∃ e, a.2 = .error e) ∨
      ∃ i task, l = .finish i task ∧ a.2 = .ok task :=
    ⟨[], (List.append_nil _).symm, fun _ h => absurd h List.not_mem_nil⟩
  cases l with
  | read req d =>
    simp only [next] at h
    split at h
    · cases h
      obtain ⟨hsocket, hreqs, new, hnew, hitem⟩ := s.read_grows req d
      refine ⟨?_, ⟨new, hnew, fun a ha => Or.inl (hitem a ha)⟩, Bool.noConfusion, ?_⟩
      · exact (congrArg Socket.sent hsocket).symm ▸ List.prefix_refl _
      · rintro req' d' ⟨⟩
        exact hreqs
    · cases h
  | readErr =>
    simp only [next] at h
    split at h
    · cases h
      exact ⟨List.prefix_refl _, hnone, fun _ => rfl, (fun _ _ h => by cases h)⟩
    · cases h
  | finish i task =>
    simp only [next] at h
    split at h
    · cases h
      obtain ⟨hsocket, hreqs, new, hnew, hitem⟩ :=
        send_grows { s with tasks := s.tasks.erase i } i (.ok task)
      refine ⟨?_, ⟨new, hnew, fun a ha => Or.inr ⟨i, task, rfl, hitem a ha⟩⟩, fun _ => hreqs,
        (fun _ _ h => by cases h)⟩
      exact (congrArg Socket.sent hsocket).symm ▸ List.prefix_refl _
    · cases h
  | abandon i =>
    simp only [next] at h
    split at h
    · cases h
      exact ⟨List.prefix_refl _, hnone, fun _ => rfl, (fun _ _ h => by cases h)⟩
    · cases h
  | writer r =>
    cases stepWriter_cases h with
    | write hwriter | flush hwriter | close hwriter =>
      exact ⟨WriteOp.sent_exec r _ s.socket, hnone, fun _ => rfl, (fun _ _ h => by cases h)⟩
    | take | wrote | drained | flushed | fail | hangUp | closed =>
      exact ⟨List.prefix_refl _, hnone, fun _ => rfl, (fun _ _ h => by cases h)⟩
  | pass n =>
    cases h
    exact ⟨List.prefix_append _ _, hnone, fun _ => rfl, (fun _ _ h => by cases h)⟩

end SvrConn

/-- One more request. -/
theorem TcpServer.readReqs_concat {alloc : Int32 → Bool} {n : ℕ} {bs rest rest' : List UInt8}
    {reqs : List RpcSvrReq} {req : RpcSvrReq} (h : readReqs alloc n bs = .ok (reqs, rest))
    (hread : readReq alloc rest = .ok (req, rest')) :
    readReqs alloc (n + 1) bs = .ok (reqs ++ [req], rest') := by
  induction n generalizing bs reqs with
  | zero =>
    cases h
    rw [readReqs, Input.bind_ok hread]
    rfl
  | succ n ih =>
    obtain ⟨req₁, bs₁, hfirst, hrest⟩ := Input.of_bind_ok h
    obtain ⟨reqs₁, bs₂, hreqs, hret⟩ := Input.of_bind_ok hrest
    cases hret
    rw [readReqs, Input.bind_ok hfirst, Input.bind_ok (ih hreqs)]
    rfl

/-! ## What the receive loop is at -/

section

variable {B : Type}

theorem Wire.feed_zero (w : Wire) (o : RecvOp B) : w.feed o (some 0) = w := by
  have hmin : min 0 (o.wants - w.taken.length) = 0 := Nat.zero_min _
  simp only [Wire.feed, Wire.arrive, hmin, List.take_zero, List.drop_zero, List.append_nil]

/-- What does not read does not ask what has arrived. -/
theorem RecvOp.exec_of_not_reads {o : RecvOp B} (hhead : ∀ b, o ≠ .readHead b)
    (hexact : ∀ n, o ≠ .readExact n) {arrival : Arrival} (arrival' : Arrival) {c : Conn B} :
    exec arrival o c = exec arrival' o c := by
  cases o with
  | readHead b => exact absurd rfl (hhead b)
  | readExact n => exact absurd rfl (hexact n)
  | _ => rfl

/-- No task comes into the registry. -/
theorem Sys.ReceiverStep.live [ClientTask B] {pf : Platform} {arrival : Arrival} {c c' : Conn B}
    {p p' : Receiver B} (h : ReceiverStep pf arrival c p c' p') (inv : c.Inv) :
    c'.timer.live ⊆ c.timer.live := by
  obtain ⟨hi, htimer, -⟩ := inv.timer
  cases h with
  | op hexec =>
    have hlive := RecvOp.exec_live inv hexec
    exact hlive
  | wait hexec => exact RecvOp.exec_live inv hexec
  | tick p =>
    obtain ⟨queue, late, seq, -, -, -, hlive, -⟩ := c.timer.adjustTaskQueue_spec
    rw [hlive]
    exact List.subset_append_right _ _
  | pull p => exact (List.Perm.of_eq htimer.pullPending.2).subset
  | clean =>
    rw [inv.clean.2]
    exact List.nil_subset _
  | drain =>
    rw [inv.clean.2]
    exact List.nil_subset _
  | stage | giveUp | again | fail | panic | close | leave | wake => exact List.Subset.refl _

end

/-! ## The invariant -/

namespace Session

variable {B T : Type} [ClientTask B] [ServerTaskEncode T]

omit [ClientTask B] in
/-- What the server has answered and not sent. -/
def future (s : Session B T) : List UInt8 :=
  (SvrConn.frames s.server.answers).drop s.server.socket.sent.length

/-- The way there. The client is a connection of its own, and the server reads what it sends. -/
structure Delivers (cfg : ConnConfig) (alloc : Int32 → Bool) (s : Session B T) : Prop where
  client : Lts.Reach (Outlet.next cfg) Outlet.Fit (Outlet.init cfg) s.client
  requests : TcpServer.readReqs alloc s.server.reqs.length s.client.socket.sent =
    .ok (s.server.reqs, s.unread)

namespace Delivers

variable {cfg : ConnConfig} {alloc : Int32 → Bool} {s s' : Session B T}

omit [ServerTaskEncode T] in
theorem init : (Session.init cfg : Session B T).Delivers cfg alloc := ⟨.init, rfl⟩

omit [ServerTaskEncode T] in
/-- The client moves: what it sends comes behind what is unread. -/
theorem moveClient (h : s.Delivers cfg alloc) {l : OutletLabel B} {wire : Wire}
    (hfit : s.client.Fit l) (hmove : s.moveClient cfg l wire = some s') :
    s'.Delivers cfg alloc := by
  obtain ⟨client, hnext, rfl⟩ := Option.map_eq_some_iff.mp hmove
  refine ⟨h.client.step l hfit hnext, ?_⟩
  have hsent := List.prefix_iff_eq_append.mp (Outlet.sent_grows hnext)
  have hread := TcpServer.steady_readReqs _ _ _ _
    (client.socket.sent.drop s.client.socket.sent.length) h.requests
  rw [hsent] at hread
  exact hread

/-- The server reads a request. -/
theorem serve (h : s.Delivers cfg alloc) {req : RpcSvrReq} {rest : List UInt8} {d : Dispatched}
    (hread : TcpServer.readReq alloc s.unread = .ok (req, rest))
    (hmove : s.moveServer (.read req d) rest = some s') : s'.Delivers cfg alloc := by
  obtain ⟨server, hserver, rfl⟩ := Option.map_eq_some_iff.mp hmove
  obtain ⟨-, -, -, hreqs⟩ := SvrConn.next_grows hserver
  refine ⟨h.client, ?_⟩
  rw [hreqs req d rfl, List.length_append]
  exact TcpServer.readReqs_concat h.requests hread

/-- The server does anything else. -/
theorem server (h : s.Delivers cfg alloc) {l : SvrLabel T} (hl : l.isRead = false)
    (hmove : s.moveServer l s.unread = some s') : s'.Delivers cfg alloc := by
  obtain ⟨server, hserver, rfl⟩ := Option.map_eq_some_iff.mp hmove
  obtain ⟨-, -, hreqs, -⟩ := SvrConn.next_grows hserver
  refine ⟨h.client, ?_⟩
  rw [hreqs hl]
  exact h.requests

/-- Any step. -/
theorem step (h : s.Delivers cfg alloc) {l : SessionLabel B T} (hfit : ClientFit s l)
    (hnext : next cfg alloc s l = some s') : s'.Delivers cfg alloc := by
  cases l with
  | call call => exact h.moveClient (l := .call call) hfit hnext
  | sender r => exact h.moveClient (l := .sender r) hfit hnext
  | receiver tick bytes => exact h.moveClient (l := .receiver tick _) trivial hnext
  | broken tick => exact h.moveClient (l := .receiver tick .error) trivial hnext
  | dropInner => exact h.moveClient (l := .dropInner) trivial hnext
  | pass n => exact h.moveClient (l := .pass n) trivial hnext
  | serve d =>
    simp only [next] at hnext
    rcases hread : TcpServer.readReq alloc s.unread with e | ⟨req, rest⟩
    · rw [hread] at hnext
      cases hnext
    · rw [hread] at hnext
      exact h.serve hread hnext
  | server l =>
    simp only [next] at hnext
    split at hnext
    · cases hnext
    · rename_i hread
      exact h.server (Bool.eq_false_iff.mpr hread) hnext

end Delivers

theorem delivers_of_reach {cfg : ConnConfig} {alloc : Int32 → Bool} {s : Session B T}
    (h : Lts.Reach (next cfg alloc) ClientFit (init cfg) s) : s.Delivers cfg alloc :=
  h.invariant Delivers.init fun _ _ _ h hfit hnext => h.step hfit hnext

/-- The two ends, each a connection of its own, tied together by the bytes between them. -/
structure Tied (cfg : ConnConfig) (alloc : Int32 → Bool) (s : Session B T) : Prop
    extends Delivers cfg alloc s where
  server : Lts.Reach SvrConn.next SvrConn.Proper SvrConn.init s.server
  live : s.client.sys.conn.timer.live ⊆ s.client.sys.conn.registered
  responses : ∀ a ∈ s.server.answers, a.2.resp?.isSome = true
  completed : ∀ d ∈ s.client.sys.conn.completed,
    d.Local ∨ d.By (SvrItem.resps s.server.answers) s.client.sys.conn.registered
  /-- the client reads the responses of the server -/
  receiver : s.client.sys.receiver.Reads (SvrItem.resps s.server.answers) s.future
    s.client.sys.conn s.wire

namespace Tied

variable {cfg : ConnConfig} {alloc : Int32 → Bool} {s s' : Session B T}

theorem init (halloc : ∀ n, 0 < n → cfg.platform.alloc n = true) (hreserve : ReservesExactly B) :
    (Session.init cfg : Session B T).Tied cfg alloc := by
  refine ⟨.init, .init, List.Subset.refl _, ?_, ?_, ?_⟩
  · exact fun _ h => absurd h List.not_mem_nil
  · exact fun _ h => absurd h List.not_mem_nil
  · exact ⟨_, _, _, Receives.start halloc hreserve _⟩

/-- The client moves. -/
theorem moveClient (h : s.Tied cfg alloc) {l : OutletLabel B} {wire : Wire}
    (hfit : s.client.Fit l) (hmove : s.moveClient cfg l wire = some s')
    (hclient : ∀ client, Outlet.next cfg s.client l = some client →
      client.sys.conn.timer.live ⊆ client.sys.conn.registered ∧
        (∀ d ∈ client.sys.conn.completed,
          d.Local ∨ d.By (SvrItem.resps s.server.answers) client.sys.conn.registered) ∧
        client.sys.receiver.Reads (SvrItem.resps s.server.answers) s.future client.sys.conn
          wire) : s'.Tied cfg alloc := by
  have hdelivers := h.toDelivers.moveClient hfit hmove
  obtain ⟨client, hnext, rfl⟩ := Option.map_eq_some_iff.mp hmove
  obtain ⟨hlive, hcompleted, hreceiver⟩ := hclient client hnext
  exact ⟨hdelivers, h.server, hlive, h.responses, hcompleted, hreceiver⟩

/-- A step of the client besides the receive loop. -/
theorem aside (h : s.Tied cfg alloc) {l : OutletLabel B} (hfit : s.client.Fit l)
    (hl : ∀ tick arrival, l ≠ .receiver tick arrival)
    (hmove : s.moveClient cfg l s.wire = some s') : s'.Tied cfg alloc := by
  refine h.moveClient hfit hmove fun client hnext => ?_
  obtain ⟨hreceiver, hregistered, hlive, hcompleted⟩ := Outlet.aside h.client hl hnext
  refine ⟨hlive h.live, fun d hd => ?_, ?_⟩
  · rcases hcompleted d hd with hd | hd
    · exact (h.completed d hd).imp_right fun hd => hd.mono (List.Subset.refl _) hregistered
    · exact Or.inl hd
  · rw [hreceiver]
    exact h.receiver.congr hregistered

/-- The server moves. -/
theorem moveServer (h : s.Tied cfg alloc) {l : SvrLabel T} {unread : List UInt8}
    (hproper : s.server.Proper l)
    (hresp : ∀ i task, l = .finish i task → (SvrItem.resp? (.ok task)).isSome = true)
    (hmove : s.moveServer l unread = some s') (hdelivers : s'.Delivers cfg alloc) :
    s'.Tied cfg alloc := by
  obtain ⟨server, hnext, rfl⟩ := Option.map_eq_some_iff.mp hmove
  obtain ⟨hsent, ⟨new, hnew, hitems⟩, -⟩ := SvrConn.next_grows hnext
  have hserver := h.server.step l hproper hnext
  have hresponses : ∀ a ∈ new, a.2.resp?.isSome = true := by
    intro a ha
    rcases hitems a ha with ⟨e, he⟩ | ⟨i, task, hl, hitem⟩
    · rw [he]
      exact SvrItem.isSome_resp?_error e
    · rw [hitem]
      exact hresp i task hl
  have hresps : SvrItem.resps server.answers =
      SvrItem.resps s.server.answers ++ SvrItem.resps new := by
    rw [hnew, SvrItem.resps_append]
  refine ⟨hdelivers, hserver, h.live, ?_, fun d hd => ?_, ?_⟩
  · rw [hnew]
    exact List.forall_mem_append.mpr ⟨h.responses, hresponses⟩
  · refine (h.completed d hd).imp_right fun hd => hd.mono ?_ (List.Subset.refl _)
    rw [hresps]
    exact List.subset_append_left _ _
  -- of what was answered, some is on its way and some is not
  have hbefore : s.server.socket.sent ++ s.future = SvrConn.frames s.server.answers :=
    List.prefix_iff_eq_append.mp
      ((List.prefix_append _ _).trans (SvrConn.inOrder_of_reach h.server).isPrefix)
  have hafter : server.socket.sent ++
      (SvrConn.frames server.answers).drop server.socket.sent.length =
        SvrConn.frames server.answers :=
    List.prefix_iff_eq_append.mp
      ((List.prefix_append _ _).trans (SvrConn.inOrder_of_reach hserver).isPrefix)
  have hbytes : s.future ++ (SvrItem.resps new).flatMap Resp.frame =
      server.socket.sent.drop s.server.socket.sent.length ++
        (SvrConn.frames server.answers).drop server.socket.sent.length := by
    refine (List.append_right_inj s.server.socket.sent).mp ?_
    rw [← List.append_assoc, hbefore, SvrItem.frames_resps hresponses, ← SvrConn.frames_append,
      ← hnew, ← List.append_assoc, List.prefix_iff_eq_append.mp hsent, hafter]
  have hgrown := h.receiver.grow (SvrItem.resps new) hbytes
  rw [← hresps] at hgrown
  exact hgrown

/-- A step of the receive loop, given what becomes of the operation it is at. -/
theorem loop (halloc : ∀ n, 0 < n → cfg.platform.alloc n = true) (hreserve : ReservesExactly B)
    (h : s.Tied cfg alloc) {tick : Bool} {arrival : Arrival} {wire : Wire}
    (hmove : s.moveClient cfg (.receiver tick arrival) wire = some s')
    (hidle : s.client.sys.receiver.op = none → wire = s.wire)
    (hact : ∀ o next y failed heads, s.client.sys.receiver = .future .polling (.act o next) →
      Receives (SvrItem.resps s.server.answers) s.future s.client.sys.conn s.wire (.act o next) y
        failed heads → ∀ c,
      (∀ a, RecvOp.exec arrival o s.client.sys.conn = (c, some a) → ∃ y failed heads,
        Receives (SvrItem.resps s.server.answers) s.future c wire (next a) y failed heads) ∧
      (RecvOp.exec arrival o s.client.sys.conn = (c, none) → ∃ y failed heads,
        Receives (SvrItem.resps s.server.answers) s.future c wire (.act o next) y failed heads)) :
    s'.Tied cfg alloc := by
  have hfit : s.client.Fit (.receiver tick arrival) := trivial
  refine h.moveClient hfit hmove fun client hnext => ?_
  have inv := (Outlet.inv_of_reach h.client).conn
  have hreceiver := h.receiver
  obtain ⟨sys, hsys, rfl⟩ := Option.map_eq_some_iff.mp hnext
  obtain ⟨⟨c, p⟩, hstep, rfl⟩ := Option.map_eq_some_iff.mp hsys
  have hstep := Sys.stepReceiver_cases hstep
  have hregistered : c.registered = s.client.sys.conn.registered := hstep.requests.2.1
  refine ⟨?_, fun d hd => ?_, ?_⟩
  · change c.timer.live ⊆ c.registered
    rw [hregistered]
    exact List.Subset.trans (hstep.live inv) h.live
  · change d.Local ∨ d.By _ c.registered
    rw [hregistered]
    rcases hreceiver.completes hstep d hd with hd | hd | hd
    · exact h.completed d hd
    · exact Or.inl hd
    · exact Or.inr hd
  · refine hreceiver.step halloc hreserve hstep hidle ?_ ?_
    · intro o next c₁ a hp hexec
      rw [hp] at hreceiver
      obtain ⟨y, failed, heads, hreceives⟩ := hreceiver
      exact (hact o next y failed heads hp hreceives c₁).1 a hexec
    · intro o next c₁ hp hexec
      rw [hp] at hreceiver
      obtain ⟨y, failed, heads, hreceives⟩ := hreceiver
      exact (hact o next y failed heads hp hreceives c₁).2 hexec

/-- The receive loop, with what has arrived. -/
theorem receive (halloc : ∀ n, 0 < n → cfg.platform.alloc n = true) (hreserve : ReservesExactly B)
    (h : s.Tied cfg alloc) {tick : Bool} {bytes : Option ℕ}
    (hgentle : s.wired.gentle (.receiver tick bytes) = true)
    (hmove : s.moveClient cfg (.receiver tick (s.wired.arrival bytes))
      (s.wired.wireAfter (.receiver tick bytes)) = some s') : s'.Tied cfg alloc := by
  have inv := (Outlet.inv_of_reach h.client).conn
  refine h.loop halloc hreserve hmove (fun hnone => ?_) ?_
  · simp only [Wired.wireAfter, wired, hnone]
  · intro o next y failed heads hp hreceives c
    have hop : s.wired.sys.receiver.op = some o := by
      change s.client.sys.receiver.op = some o
      rw [hp]
      rfl
    have harrival : s.wired.arrival bytes = o.sees (s.wire.feed o bytes) bytes := by
      rw [Wired.arrival, hop]
      rfl
    have hwire : s.wired.wireAfter (.receiver tick bytes) = (s.wire.feed o bytes).answered
        (RecvOp.exec (o.sees (s.wire.feed o bytes) bytes) o s.client.sys.conn).2 := by
      rw [Wired.wireAfter, hop]
      rfl
    rw [Wired.gentle, hop] at hgentle
    rw [harrival, hwire]
    refine ⟨fun a hexec => ?_, fun hexec => ?_⟩
    · rw [hexec]
      exact ⟨_, _, _, hreceives.op inv h.live hgentle hexec⟩
    · rw [hexec]
      have hregistered := (RecvOp.exec_shared hexec).2.2.1
      refine ⟨_, _, _, hreceives.wait ?_ bytes⟩
      rw [hregistered]
      exact List.Subset.refl _

/-- The receive loop, when a read fails. -/
theorem broken (halloc : ∀ n, 0 < n → cfg.platform.alloc n = true) (hreserve : ReservesExactly B)
    (h : s.Tied cfg alloc) {tick : Bool}
    (hmove : s.moveClient cfg (.receiver tick .error) s.wireBroken = some s') :
    s'.Tied cfg alloc := by
  have inv := (Outlet.inv_of_reach h.client).conn
  refine h.loop halloc hreserve hmove (fun hnone => ?_) ?_
  · simp only [wireBroken, hnone]
  · intro o next y failed heads hp hreceives c
    have hwire : s.wireBroken =
        s.wire.answered (RecvOp.exec .error o s.client.sys.conn).2 := by
      rw [wireBroken, hp]
      rfl
    rw [hwire]
    refine ⟨fun a hexec => ?_, fun hexec => ?_⟩
    · rw [hexec]
      have hanswers := hreceives.answers.step a
      have hgives := hreceives.gives.step a
      by_cases hfails : givingUp.next failed o a = true
      · rw [hfails] at hgives
        exact ⟨_, _, [], Receives.of_failed hanswers hgives (Nat.zero_le _)⟩
      · -- the operation reads nothing
        have hreads : (∀ b, o ≠ .readHead b) ∧ ∀ n, o ≠ .readExact n := by
          refine ⟨?_, ?_⟩
          · rintro b rfl
            cases hexec
            exact hfails (Bool.or_true _)
          · rintro n rfl
            cases hexec
            exact hfails (Bool.or_true _)
        have hgentle : o.gentle s.client.sys.conn (s.wire.feed o (some 0)) = true := by
          cases o with
          | readHead b => exact absurd rfl (hreads.1 b)
          | _ => rfl
        rw [RecvOp.exec_of_not_reads hreads.1 hreads.2
          (o.sees (s.wire.feed o (some 0)) (some 0))] at hexec
        have hreceives' := hreceives.op inv h.live hgentle hexec
        rw [Wire.feed_zero] at hreceives'
        exact ⟨_, _, _, hreceives'⟩
    · rw [hexec]
      have hregistered := (RecvOp.exec_shared hexec).2.2.1
      refine ⟨_, _, _, hreceives.wait ?_ none⟩
      rw [hregistered]
      exact List.Subset.refl _

/-- Any step. -/
theorem step (halloc : ∀ n, 0 < n → cfg.platform.alloc n = true) (hreserve : ReservesExactly B)
    (h : s.Tied cfg alloc) {l : SessionLabel B T} (hfit : Fit s l)
    (hnext : next cfg alloc s l = some s') : s'.Tied cfg alloc := by
  have hdelivers := h.toDelivers.step hfit.client hnext
  cases l with
  | call call => exact h.aside (l := .call call) hfit (fun _ _ h => by cases h) hnext
  | sender r => exact h.aside (l := .sender r) hfit (fun _ _ h => by cases h) hnext
  | receiver tick bytes => exact h.receive halloc hreserve hfit hnext
  | broken tick => exact h.broken halloc hreserve hnext
  | dropInner =>
    have hfit : s.client.Fit .dropInner := trivial
    exact h.aside hfit (fun _ _ h => by cases h) hnext
  | pass n =>
    have hfit : s.client.Fit (.pass n) := trivial
    exact h.aside hfit (fun _ _ h => by cases h) hnext
  | serve d =>
    simp only [next] at hnext
    rcases hread : TcpServer.readReq alloc s.unread with e | ⟨req, rest⟩
    · rw [hread] at hnext
      cases hnext
    · rw [hread] at hnext
      have hproper : s.server.Proper (.read req d) := hfit
      exact h.moveServer hproper (fun _ _ h => by cases h) hnext hdelivers
  | server l =>
    simp only [next] at hnext
    split at hnext
    · cases hnext
    · rename_i hread
      by_cases hfinish : ∃ i task, l = .finish i task
      · obtain ⟨i, task, rfl⟩ := hfinish
        refine h.moveServer hfit.1 (fun i' task' heq => ?_) hnext hdelivers
        cases heq
        exact hfit.2
      · have hproper : s.server.Proper l :=
          .of_aside (Bool.eq_false_iff.mpr hread) fun i task heq => hfinish ⟨i, task, heq⟩
        exact h.moveServer hproper (fun i task heq => absurd ⟨i, task, heq⟩ hfinish) hnext hdelivers

end Tied

theorem tied_of_reach {cfg : ConnConfig} {alloc : Int32 → Bool} {s : Session B T}
    (halloc : ∀ n, 0 < n → cfg.platform.alloc n = true) (hreserve : ReservesExactly B)
    (h : Lts.Reach (next cfg alloc) Fit (init cfg) s) : s.Tied cfg alloc :=
  h.invariant (Tied.init halloc hreserve) fun _ _ _ h hfit hnext =>
    h.step halloc hreserve hfit hnext

end Session

/-! ## The meaning of a call -/

/-- A request has the number of its operation. -/
theorem ClientOp.seq_of_request? {B : Type} [ClientTask B] {op : ClientOp B} {req : RpcSvrReq}
    (h : op.request? = some req) : req.seq = op.seq := by
  cases op with
  | task t =>
    simp only [request?] at h
    split at h
    · cases h
      rfl
    · cases h
  | ping seq =>
    cases h
    rfl

/-- Of requests with growing numbers no two have the same. -/
theorem ClientOp.eq_of_seq {B : Type} {ops : List (ClientOp B)}
    (hsorted : ops.Pairwise fun op op' => op.seq < op'.seq) {op op' : ClientOp B} (h : op ∈ ops)
    (h' : op' ∈ ops) (hseq : op.seq = op'.seq) : op = op' := by
  have hnodup : (ops.map seq).Nodup :=
    List.pairwise_map.mpr (hsorted.imp fun hlt => UInt64.ne_of_lt hlt)
  exact List.inj_on_of_nodup_map hnodup h h' hseq

namespace Session

variable {B T : Type} [ClientTask B] [ServerTaskEncode T] {cfg : ConnConfig} {alloc : Int32 → Bool}
  {s : Session B T}

omit [ServerTaskEncode T] in
/-- What the server has read are the first requests of the client. -/
theorem reqs_first (halloc : ∀ n, 0 < n → alloc n = true) (hreq : AppendsWhatItReturns B)
    (h : s.Delivers cfg alloc) {ops : List (ClientOp B)} (horders : s.client.Orders cfg ops) :
    s.server.reqs <+: ops.filterMap ClientOp.request? := by
  obtain ⟨q, -, hordered⟩ := horders
  have hsent : s.client.socket.sent <+: ClientOp.frames cfg.clientId ops :=
    (List.prefix_append _ _).trans hordered.bytes.isPrefix
  exact ClientOp.reads_prefix halloc hreq hordered.domain h.requests hsent

/-- The answer to a request that has the number of a registered task is an answer to the
request of this task. -/
theorem request_of_seq {ops : List (ClientOp B)}
    (hsorted : ops.Pairwise fun op op' => op.seq < op'.seq) {reqs : List RpcSvrReq}
    (hreqs : reqs <+: ops.filterMap ClientOp.request?) {t : Task B} (ht : .task t ∈ ops) {i : ℕ}
    {req : RpcSvrReq} (hi : reqs[i]? = some req) (hseq : req.seq = t.seq) :
    (ClientOp.task t).request? = some req := by
  have hmem : req ∈ ops.filterMap ClientOp.request? := hreqs.subset (List.mem_of_getElem? hi)
  obtain ⟨op, hop, hrequest⟩ := List.mem_filterMap.mp hmem
  have hsame : op.seq = (ClientOp.task t).seq := (ClientOp.seq_of_request? hrequest).symm.trans hseq
  rw [← ClientOp.eq_of_seq hsorted hop ht hsame]
  exact hrequest

/-- A task that is completed failed on this side, or was answered. -/
theorem Tied.answer (halloc : ∀ n, 0 < n → alloc n = true) (hreq : AppendsWhatItReturns B)
    (h : s.Tied cfg alloc) {d : Completion B} (hd : d ∈ s.client.sys.conn.completed) :
    d.Local ∨ ∃ t ∈ s.client.sys.conn.registered, ∃ a ∈ s.server.answers, ∃ req r,
      s.server.reqs[a.1]? = some req ∧ (ClientOp.task t).request? = some req ∧
        SvrItem.Answers req a.2 ∧ a.2.resp? = some r ∧ d = r.body.complete t := by
  refine (h.completed d hd).imp_right ?_
  rintro ⟨r, hr, t, ht, hseq, rfl⟩
  obtain ⟨a, ha, hresp⟩ := List.mem_filterMap.mp hr
  obtain ⟨req, hi, hanswers⟩ :=
    (SvrConn.placed_of_reach h.server).fits a (List.mem_append_left _ ha)
  obtain ⟨ops, horders⟩ := Outlet.orders_of_reach h.client
  obtain ⟨q, -, hordered⟩ := id horders
  have hnumber : req.seq = t.seq :=
    hanswers.seq_eq.symm.trans ((SvrItem.resp?_frame hresp).1.symm.trans hseq)
  exact ⟨t, ht, a, ha, req, r, hi,
    request_of_seq hordered.sorted (reqs_first halloc hreq h.toDelivers horders)
      (hordered.registered t ht) hi hnumber, hanswers, hresp, rfl⟩

/-- **The meaning of a call.** As long as no header is cut off and the answers are responses
(`Fit`), whatever fails and when, whoever leaves first, and in whatever order requests are
handled: the receive loop does not panic; no task is completed twice; and
a task that is completed failed on this side, of an i/o error or of time, or was answered by
the server, by an answer to its own request. -/
theorem completed_by_answer (hallocClient : ∀ n, 0 < n → cfg.platform.alloc n = true)
    (hreserve : ReservesExactly B) (hallocServer : ∀ n, 0 < n → alloc n = true)
    (hreq : AppendsWhatItReturns B) (h : Lts.Reach (next cfg alloc) Fit (init cfg) s) :
    s.client.sys.receiver ≠ .panicked ∧
      (s.client.sys.conn.completed.map Completion.id).Nodup ∧
      ∀ d ∈ s.client.sys.conn.completed, d.Local ∨
        ∃ t ∈ s.client.sys.conn.registered, ∃ a ∈ s.server.answers, ∃ req r,
          s.server.reqs[a.1]? = some req ∧ (ClientOp.task t).request? = some req ∧
            SvrItem.Answers req a.2 ∧ a.2.resp? = some r ∧ d = r.body.complete t := by
  have htied := tied_of_reach hallocClient hreserve h
  refine ⟨fun hpanicked => ?_, ?_, fun d hd => ?_⟩
  · have hreceiver := htied.receiver
    rw [hpanicked] at hreceiver
    exact hreceiver
  · have hnodup := (Outlet.inv_of_reach htied.client).conn.nodup
    have hplaced := (List.nodup_append.mp hnodup).2.1
    have hrecv := (List.nodup_append.mp hplaced).2.1
    have hdone := (List.nodup_append.mp hrecv).2.1
    exact (List.nodup_append.mp hdone).1
  · exact htied.answer hallocServer hreq hd

/-- A call, from the client to the server and back. -/
def roundTrip : List (SessionLabel APIClientReq APIServerResp) :=
  .call (.sendTask ⟨0, 0, .new "calc.add" [146, 1, 2]⟩ true) :: List.replicate 12 (.sender .done) ++
    [.serve ⟨true, true⟩, .server (.finish 0 ⟨1, some [3], .ok ()⟩)] ++
    List.replicate 6 (.server (.writer .done)) ++ List.replicate 14 (.receiver false (some 100))

/-- A call is answered. -/
theorem completed_by_answer_one :
    ∃ s : Session APIClientReq APIServerResp,
      Lts.Reach (next Sys.apiConfig fun _ => true) Fit (init Sys.apiConfig) s ∧
      s.client.sys.conn.completed.length = 1 ∧
      ∀ d ∈ s.client.sys.conn.completed, d.Local ∨
        ∃ t ∈ s.client.sys.conn.registered, ∃ a ∈ s.server.answers, ∃ req r,
          s.server.reqs[a.1]? = some req ∧ (ClientOp.task t).request? = some req ∧
            SvrItem.Answers req a.2 ∧ a.2.resp? = some r ∧ d = r.body.complete t := by
  have hrun : (Lts.exec (next Sys.apiConfig fun _ => true) Fit (init Sys.apiConfig) roundTrip).any
      (fun s => decide (s.client.sys.conn.completed.length = 1)) = true := by decide +kernel
  obtain ⟨s, hreach, htest⟩ := Lts.Reach.exists_of_exec hrun
  have halloc : ∀ n : Int32, 0 < n → (fun _ : Int32 => true) n = true := fun _ _ => rfl
  have hcompleted := (completed_by_answer halloc reservesExactly_api halloc
    appendsWhatItReturns_api hreach).2.2
  exact ⟨s, hreach, of_decide_eq_true htest, hcompleted⟩

/-- Two calls, one of which the server has read. -/
def twoCalls : List (SessionLabel APIClientReq APIServerResp) :=
  .call (.sendTask ⟨0, 0, .new "calc.add" [146, 1, 2]⟩ true) :: List.replicate 12 (.sender .done) ++
    .call (.sendTask ⟨1, 0, .new "calc.sub" [146, 5, 2]⟩ true) ::
      List.replicate 12 (.sender .done) ++ [.serve ⟨true, true⟩]

end Session

end RazorRpc
