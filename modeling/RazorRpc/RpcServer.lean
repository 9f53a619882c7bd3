import RazorRpc.SvrConn

/-!
# The server (`RpcServer` in `stream/src/server/server.rs`)

A server is any number of accept loops and the connections they have accepted. How many
are alive is told by the clones of one reference (`conn_ref_count`): an accept loop has
one, and a connection has one as long as its reader or its writer is there.

`close` aborts the accept loops, tells the readers and then looks at the count once a
second. The readers are told through a channel that makes `read_req` fail; as it may fail
at any time, the channel is not part of the state. Nor is the clock: whether
`server_close_wait` is over when `close` wakes up is up to the label.

* `RpcServer`, `RpcServer.next` — accept loops, connections and `close` in any order;
* `conn_of_reach` — every connection is in a state it reaches by itself;
* `close_graceful` — what holds when `close` returns in time.
-/

namespace RazorRpc

/-- Where `close` is. -/
inductive Closing : Type where
  /-- not called -/
  | serving
  /-- before the first look at the count -/
  | counting
  /-- at the head of the loop -/
  | testing (existsCount : ℕ)
  | sleeping
  /-- returned, in time or because the wait was too long -/
  | closed (existsCount : ℕ) (tooLong : Bool)
  deriving DecidableEq

structure RpcServer (T : Type) where
  /-- the accept loops that run -/
  listeners : ℕ
  /-- the accept loops that are aborted and not dropped yet -/
  aborted : ℕ
  /-- the connections accepted, also those that have ended -/
  conns : List (SvrConn T)
  closing : Closing

/-- What happens next. -/
inductive RpcServerLabel (T : Type) : Type where
  | listen
  /-- an accept loop accepts a connection -/
  | accept
  /-- an accept loop ends with an error -/
  | acceptErr
  /-- a step of a connection -/
  | conn (i : ℕ) (l : SvrLabel T)
  /-- `close` is called -/
  | close
  /-- the runtime drops an aborted accept loop -/
  | dropListener
  /-- `close` goes on; whether it has waited too long -/
  | closeGoes (tooLong : Bool)

variable {T : Type}

theorem Writer.exists_returned {w : Writer T} (h : w.isReturned = true) :
    ∃ ok, w = .returned ok := by
  cases w with
  | returned ok => exact ⟨ok, rfl⟩
  | _ => cases h

/-- Reader and writer have ended. -/
def SvrConn.isOver (c : SvrConn T) : Bool := !c.reading && c.writer.isReturned

namespace RpcServer

/-- `RpcServer::new`. -/
def new : RpcServer T := ⟨0, 0, [], .serving⟩

/-- `get_alive_conn`: the clones of `conn_ref_count`. -/
def getAliveConn (s : RpcServer T) : ℕ :=
  s.listeners + s.aborted + s.conns.countP fun c => !c.isOver

/-- The loop of `close`, one step after the other. -/
def closeGoes (s : RpcServer T) (tooLong : Bool) : Option (RpcServer T) :=
  match s.closing with
  | .counting => some { s with closing := .testing s.getAliveConn }
  | .testing existsCount =>
    if 0 < existsCount then some { s with closing := .sleeping }
    else some { s with closing := .closed existsCount false }
  | .sleeping =>
    let existsCount := s.getAliveConn
    if tooLong then some { s with closing := .closed existsCount true }
    else some { s with closing := .testing existsCount }
  | .serving | .closed _ _ => none

variable [ServerTaskEncode T]

def next (s : RpcServer T) : RpcServerLabel T → Option (RpcServer T)
  | .listen =>
    if s.closing = .serving then some { s with listeners := s.listeners + 1 } else none
  | .accept =>
    if 0 < s.listeners + s.aborted then some { s with conns := s.conns ++ [.init] } else none
  | .acceptErr =>
    if 0 < s.listeners then some { s with listeners := s.listeners - 1 } else none
  | .conn i l =>
    (s.conns[i]?.bind fun c => c.next l).map fun c => { s with conns := s.conns.set i c }
  | .close =>
    if s.closing = .serving then
      some { s with listeners := 0, aborted := s.aborted + s.listeners, closing := .counting }
    else none
  | .dropListener =>
    if 0 < s.aborted then some { s with aborted := s.aborted - 1 } else none
  | .closeGoes tooLong => s.closeGoes tooLong

/-- The dispatchers of all connections do what is asked of them. -/
def Proper (s : RpcServer T) : RpcServerLabel T → Prop
  | .conn i l => ∀ c ∈ s.conns[i]?, SvrConn.Proper c l
  | _ => True

instance (s : RpcServer T) : (l : RpcServerLabel T) → Decidable (Proper s l)
  | .conn i l => inferInstanceAs (Decidable (∀ c ∈ s.conns[i]?, SvrConn.Proper c l))
  | .listen | .accept | .acceptErr | .close | .dropListener | .closeGoes _ => .isTrue trivial

omit [ServerTaskEncode T] in
/-- `close` only looks. -/
theorem closeGoes_frame {s s' : RpcServer T} {tooLong : Bool} (h : s.closeGoes tooLong = some s') :
    s'.conns = s.conns ∧ s'.listeners = s.listeners ∧ s'.aborted = s.aborted := by
  unfold closeGoes at h
  split at h
  · cases h
    exact ⟨rfl, rfl, rfl⟩
  · split at h
    · cases h
      exact ⟨rfl, rfl, rfl⟩
    · cases h
      exact ⟨rfl, rfl, rfl⟩
  · split at h
    · cases h
      exact ⟨rfl, rfl, rfl⟩
    · cases h
      exact ⟨rfl, rfl, rfl⟩
  · cases h
  · cases h

/-! ## Connections -/

/-- Every connection has come where it is by steps of its own. -/
theorem conn_of_reach {s : RpcServer T} (h : Lts.Reach next Proper new s) :
    ∀ c ∈ s.conns, Lts.Reach SvrConn.next SvrConn.Proper SvrConn.init c := by
  refine h.invariant (I := fun s => ∀ c ∈ s.conns, Lts.Reach SvrConn.next SvrConn.Proper
    SvrConn.init c) (fun _ hc => absurd hc List.not_mem_nil) fun s l s' h hok hnext => ?_
  cases l with
  | conn i l =>
    obtain ⟨c', hc', rfl⟩ := Option.map_eq_some_iff.mp hnext
    obtain ⟨c, hc, hstep⟩ := Option.bind_eq_some_iff.mp hc'
    intro d hd
    rcases List.mem_or_eq_of_mem_set hd with hd | rfl
    · exact h d hd
    · exact .step l (h c (List.mem_of_getElem? hc)) (hok c hc) hstep
  | accept =>
    simp only [next] at hnext
    split at hnext
    · cases hnext
      intro c hc
      rcases List.mem_append.mp hc with hc | hc
      · exact h c hc
      · rw [List.mem_singleton.mp hc]
        exact .init
    · cases hnext
  | closeGoes tooLong =>
    rw [(closeGoes_frame hnext).1]
    exact h
  | listen | acceptErr | close | dropListener =>
    simp only [next] at hnext
    split at hnext
    · cases hnext
      exact h
    · cases hnext

/-! ## The end -/

/-- Nothing of the server is alive. -/
def Gone (s : RpcServer T) : Prop := s.getAliveConn = 0

omit [ServerTaskEncode T] in
theorem Gone.iff {s : RpcServer T} :
    s.Gone ↔ s.listeners = 0 ∧ s.aborted = 0 ∧ ∀ c ∈ s.conns, c.isOver = true := by
  have hcount : (s.conns.countP fun c => !c.isOver) = 0 ↔ ∀ c ∈ s.conns, c.isOver = true := by
    rw [List.countP_eq_zero]
    refine forall₂_congr fun c _ => ?_
    cases c.isOver <;> decide
  rw [Gone, getAliveConn, ← hcount]
  omega

/-- A connection that is over stays so. -/
theorem isOver_step {c c' : SvrConn T} {l : SvrLabel T} (h : c.isOver = true)
    (hnext : c.next l = some c') : c'.isOver = true := by
  obtain ⟨hreading, hwriter⟩ := Bool.and_eq_true_iff.mp h
  have hreading : c.reading = false := by simpa using hreading
  cases l with
  | read req d =>
    simp only [SvrConn.next, hreading] at hnext
    cases hnext
  | readErr =>
    simp only [SvrConn.next, hreading] at hnext
    cases hnext
  | finish i task =>
    simp only [SvrConn.next] at hnext
    split at hnext
    · cases hnext
      rcases SvrConn.send_cases { c with tasks := c.tasks.erase i } i (.ok task) with
        ⟨-, hsend⟩ | ⟨-, hsend⟩
      · rw [hsend]
        exact h
      · rw [hsend]
        exact h
    · cases hnext
  | abandon i =>
    simp only [SvrConn.next] at hnext
    split at hnext
    · cases hnext
      exact h
    · cases hnext
  | writer r =>
    cases hw : c.writer with
    | returned ok =>
      simp only [SvrConn.next, SvrConn.stepWriter, hw] at hnext
      cases hnext
    | _ =>
      rw [hw] at hwriter
      cases hwriter
  | pass n =>
    cases hnext
    exact h

/-- Nobody is left who could accept a connection, or go on with one. -/
theorem Gone.step {s s' : RpcServer T} (h : s.Gone) (hclosing : s.closing ≠ .serving)
    {l : RpcServerLabel T} (hnext : next s l = some s') : s'.Gone := by
  obtain ⟨hlisteners, haborted, hover⟩ := Gone.iff.mp h
  refine Gone.iff.mpr ?_
  cases l with
  | conn i l =>
    obtain ⟨c', hc', rfl⟩ := Option.map_eq_some_iff.mp hnext
    obtain ⟨c, hc, hstep⟩ := Option.bind_eq_some_iff.mp hc'
    refine ⟨hlisteners, haborted, fun d hd => ?_⟩
    rcases List.mem_or_eq_of_mem_set hd with hd | rfl
    · exact hover d hd
    · exact isOver_step (hover c (List.mem_of_getElem? hc)) hstep
  | closeGoes tooLong =>
    obtain ⟨hconns, hlisteners', haborted'⟩ := closeGoes_frame hnext
    rw [hconns, hlisteners', haborted']
    exact ⟨hlisteners, haborted, hover⟩
  | listen =>
    simp only [next, if_neg hclosing] at hnext
    cases hnext
  | close =>
    simp only [next, if_neg hclosing] at hnext
    cases hnext
  | accept =>
    simp only [next, hlisteners, haborted] at hnext
    cases hnext
  | acceptErr =>
    simp only [next, hlisteners] at hnext
    cases hnext
  | dropListener =>
    simp only [next, haborted] at hnext
    cases hnext

/-- What `close` has found. -/
def Found (s : RpcServer T) : Prop :=
  match s.closing with
  | .testing existsCount => existsCount = 0 → s.Gone
  | .closed existsCount tooLong => tooLong = false → existsCount = 0 ∧ s.Gone
  | .serving | .counting | .sleeping => True

/-- The other steps leave `close` where it is, or call it. -/
theorem closing_of_next {s s' : RpcServer T} {l : RpcServerLabel T} (hnext : next s l = some s')
    (hl : ∀ tooLong, l ≠ .closeGoes tooLong) : s'.closing = s.closing ∨ s'.closing = .counting := by
  cases l with
  | conn i l =>
    obtain ⟨c, -, rfl⟩ := Option.map_eq_some_iff.mp hnext
    exact Or.inl rfl
  | closeGoes tooLong => exact absurd rfl (hl tooLong)
  | close =>
    simp only [next] at hnext
    split at hnext
    · cases hnext
      exact Or.inr rfl
    · cases hnext
  | listen | accept | acceptErr | dropListener =>
    simp only [next] at hnext
    split at hnext
    · cases hnext
      exact Or.inl rfl
    · cases hnext

omit [ServerTaskEncode T] in
/-- `close` looks at the count as it is. -/
theorem Found.closeGoes {s s' : RpcServer T} (h : s.Found) {tooLong : Bool}
    (hnext : s.closeGoes tooLong = some s') : s'.Found := by
  obtain ⟨listeners, aborted, conns, closing⟩ := s
  cases closing with
  | serving => cases hnext
  | closed existsCount tooLong => cases hnext
  | counting =>
    cases hnext
    exact id
  | testing existsCount =>
    simp only [RpcServer.closeGoes] at hnext
    split at hnext
    · cases hnext
      exact trivial
    · rename_i hzero
      cases hnext
      have hzero := Nat.eq_zero_of_not_pos hzero
      exact fun _ => ⟨hzero, h hzero⟩
  | sleeping =>
    cases tooLong with
    | true =>
      cases hnext
      exact Bool.noConfusion
    | false =>
      cases hnext
      exact id

/-- **The step lemma.** -/
theorem Found.step {s s' : RpcServer T} (h : s.Found) {l : RpcServerLabel T}
    (hnext : next s l = some s') : s'.Found := by
  by_cases hgoes : ∃ tooLong, l = .closeGoes tooLong
  · obtain ⟨tooLong, rfl⟩ := hgoes
    exact h.closeGoes hnext
  · have hl : ∀ tooLong, l ≠ .closeGoes tooLong := fun tooLong hl => hgoes ⟨tooLong, hl⟩
    unfold Found at h ⊢
    rcases closing_of_next hnext hl with hsame | hcounting
    · rw [hsame]
      cases hclosing : s.closing with
      | testing existsCount =>
        rw [hclosing] at h
        exact fun hzero => (h hzero).step (by rw [hclosing]; exact Closing.noConfusion) hnext
      | closed existsCount tooLong =>
        rw [hclosing] at h
        intro htime
        obtain ⟨hzero, hgone⟩ := h htime
        exact ⟨hzero, hgone.step (by rw [hclosing]; exact Closing.noConfusion) hnext⟩
      | _ => exact trivial
    · rw [hcounting]
      exact trivial

/-- **A server that closes in time has lost nothing.** When `close` returns before its time is
up, no accept loop is there and no connection alive, and so it stays. On every connection whose
writer has not met an I/O error, each request read was answered once, unless its task was
dropped, and all the answers are sent. -/
theorem close_graceful {s : RpcServer T} (h : Lts.Reach next Proper new s) {existsCount : ℕ}
    (hclosed : s.closing = .closed existsCount false) :
    (existsCount = 0 ∧ s.listeners = 0 ∧ s.aborted = 0) ∧
      ∀ c ∈ s.conns, c.reading = false ∧ ∃ ok, c.writer = .returned ok ∧
        (ok = true → c.socket.sent = SvrConn.frames c.answers ∧
          (c.answers.map Prod.fst ++ c.dropped).Perm (List.range c.reqs.length)) := by
  have hfound : s.Found := by
    refine h.invariant (I := Found) ?_ fun s l s' h _ hnext => h.step hnext
    exact trivial
  unfold Found at hfound
  rw [hclosed] at hfound
  obtain ⟨hzero, hgone⟩ := hfound rfl
  obtain ⟨hlisteners, haborted, hover⟩ := Gone.iff.mp hgone
  refine ⟨⟨hzero, hlisteners, haborted⟩, fun c hc => ?_⟩
  obtain ⟨hreading, hwriter⟩ := Bool.and_eq_true_iff.mp (hover c hc)
  obtain ⟨ok, hok⟩ := Writer.exists_returned hwriter
  refine ⟨by simpa using hreading, ok, hok, fun htrue => ?_⟩
  subst htrue
  obtain ⟨hfinished, -, hplaces⟩ :=
    SvrConn.finished_of_closing (conn_of_reach h c hc) (by rw [hok]; rfl)
  exact ⟨hfinished.sent_eq, hplaces⟩

/-- The labels of a connection, as labels of the server. -/
def onConn (i : ℕ) (ls : List (SvrLabel APIServerResp)) : List (RpcServerLabel APIServerResp) :=
  ls.map (.conn i)

/-- A server with one connection, on which three requests are answered, and which ends between
two looks at the count. -/
def closingTime : List (RpcServerLabel APIServerResp) :=
  [.listen, .accept] ++ onConn 0 SvrConn.threeReqs ++
    [.close, .closeGoes false, .closeGoes false] ++ onConn 0 SvrConn.orderlyEnd ++
    [.dropListener, .closeGoes false] ++ onConn 0 (SvrConn.writes 4) ++
    [.closeGoes false, .closeGoes false, .closeGoes false]

theorem close_graceful_one :
    ∃ s : RpcServer APIServerResp, Lts.Reach next Proper new s ∧ s.closing = .closed 0 false ∧
      s.conns.length = 1 ∧ ∀ c ∈ s.conns, c.reading = false := by
  have hrun : (Lts.exec next Proper new closingTime).any
      (fun s => decide (s.closing = .closed 0 false ∧ s.conns.length = 1)) = true := by
    decide +kernel
  obtain ⟨s, hreach, htest⟩ := Lts.Reach.exists_of_exec hrun
  obtain ⟨hclosed, hlen⟩ := of_decide_eq_true htest
  exact ⟨s, hreach, hclosed, hlen, fun c hc => ((close_graceful hreach hclosed).2 c hc).1⟩

end RpcServer

end RazorRpc
