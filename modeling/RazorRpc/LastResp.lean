import RazorRpc.Conn

/-!
# The time of the last response (`stream/src/client/stream.rs`)

`recv_some` calls `recv_one_resp` up to twenty times and stores `facts.get_timestamp()` in
`last_resp_ts` each time that comes back with `Ok`. `recv_one_resp` is a loop around
`read_resp`, and whether the store is ever made depends on the ways out of that loop.

* `recvTurn` — one turn of the loop, with what `read_resp` returned and what, if anything,
  `recv_one_resp` returns. No path through it ends in `Ok` (`noOk_recvTurn`).
* `Stamped` — a connection with both loops written out and `last_resp_ts` in it.
* `erase` forgets the outer loop and gives the connection of `Conn`, step for step
  (`Stamped.reach_erase`).
-/

namespace RazorRpc

open Prog ClientStream

/-! ## One turn of `recv_one_resp` -/

namespace ClientStream

/-- How a turn of the loop in `recv_one_resp` ended. -/
structure TurnEnd where
  /-- what `read_resp` returned, if it was called -/
  read : Option (Except RpcIntErr Bool)
  /-- what `recv_one_resp` returns; `none` to go round again -/
  exit : Option (Except RpcIntErr Unit)

namespace TurnEnd

/-- `read_resp` returned `Ok(true)`. -/
def gotResp : TurnEnd → Bool
  | ⟨some (.ok true), _⟩ => true
  | _ => false

/-- The error that ends `recv_some`. -/
def err (e : TurnEnd) : Option RpcIntErr :=
  match e.exit with
  | some (.error e) => some e
  | _ => none

end TurnEnd

variable {B : Type}

/-- Every operation is allowed, and nothing is remembered. -/
def anyhow : Protocol (RecvOp B) RecvOp.Res Unit where
  ok _ _ := True
  next _ _ _ := ()

/-- `recv_one_resp` does not return `Ok` at the end of this. -/
def NoOk (p : Recv B TurnEnd) : Prop :=
  Follows anyhow (fun e _ => e.exit ≠ some (.ok ())) () p

theorem follows_anyhow {α : Type} (p : Recv B α) : Follows anyhow (fun _ _ => True) () p :=
  Follows.of_closed (C := fun _ => True) (fun _ _ _ => trivial) (fun _ _ _ _ => trivial)
    (fun _ _ _ => trivial) trivial p

variable [ClientTask B]

open Recv

/-- The turn on a closed connection, once it is known whether to quit. -/
def closedTurn (pf : Platform) (quit : Bool) : Recv B TurnEnd :=
  if quit then return ⟨none, some (.error .io)⟩
  else do
    match ← TcpClient.readResp pf false with
    | .error e =>
      storeClosed
      return ⟨some (.error e), some (.error .io)⟩
    | .ok r => return ⟨some (.ok r), none⟩

/-- One turn of the loop in `recv_one_resp`. -/
def recvTurn (pf : Platform) : Recv B TurnEnd := do
  if ← loadClosed then
    if ← checkPendingTasksEmpty then closedTurn pf true
    else
      let hasErr ← loadHasErr
      closedTurn pf hasErr
  else
    match ← TcpClient.readResp pf true with
    | .error e => return ⟨some (.error e), some (.error .io)⟩
    | .ok true => return ⟨some (.ok true), none⟩
    | .ok false =>
      storeClosed
      return ⟨some (.ok false), none⟩

/-- Of what a turn returns, `Conn` keeps the error. -/
theorem recvOneResp_eq (pf : Platform) :
    (recvOneResp pf : Recv B (Option RpcIntErr)) = recvTurn pf >>= fun e => pure e.err := by
  have hclosed : ∀ quit, (recvClosed pf quit : Recv B (Option RpcIntErr)) =
      closedTurn pf quit >>= fun e => pure e.err := by
    intro quit
    cases quit with
    | true => rfl
    | false =>
      change _ = (TcpClient.readResp pf false >>= _) >>= _
      rw [bind_assoc]
      refine congrArg (TcpClient.readResp pf false >>= ·) (funext fun r => ?_)
      cases r with
      | error e => rfl
      | ok r => rfl
  refine congrArg (Prog.act RecvOp.loadClosed) (funext fun closed => ?_)
  cases closed with
  | true =>
    refine congrArg (Prog.act RecvOp.checkPendingTasksEmpty) (funext fun none => ?_)
    cases none with
    | true => exact hclosed true
    | false => exact congrArg (Prog.act RecvOp.loadHasErr) (funext hclosed)
  | false =>
    change _ = (TcpClient.readResp pf true >>= _) >>= _
    rw [bind_assoc]
    refine congrArg (TcpClient.readResp pf true >>= ·) (funext fun r => ?_)
    rcases r with e | _ | _
    · rfl
    · rfl
    · rfl

/-- The loop is left with an error, or not at all. -/
theorem noOk_recvTurn (pf : Platform) : NoOk (recvTurn pf : Recv B TurnEnd) := by
  have hclosed : ∀ quit, NoOk (closedTurn pf quit : Recv B TurnEnd) := by
    intro quit
    cases quit with
    | true => exact nofun
    | false =>
      refine (follows_anyhow (TcpClient.readResp pf false)).bind fun r _ _ => ?_
      cases r with
      | error e => exact ⟨trivial, fun _ => nofun⟩
      | ok r => exact nofun
  refine ⟨trivial, fun closed => ?_⟩
  cases closed with
  | true =>
    refine ⟨trivial, fun none => ?_⟩
    cases none with
    | true => exact hclosed true
    | false => exact ⟨trivial, hclosed⟩
  | false =>
    refine (follows_anyhow (TcpClient.readResp pf true)).bind fun r _ _ => ?_
    rcases r with e | _ | _
    · exact nofun
    · exact ⟨trivial, fun _ => nofun⟩
    · exact nofun

end ClientStream

/-! ## Both loops -/

/-- Where `receive_loop` is. -/
inductive RecvSome (B : Type) : Type where
  /-- at the selector, in turn `i` of the loop of `recv_some` -/
  | future (stage : Stage) (i : ℕ) (p : Recv B TurnEnd)
  /-- `recv_some` has failed, or has been dropped -/
  | over (r : Receiver B)

namespace RecvSome

variable {B : Type}

/-- The receiver without the loop of `recv_some`. -/
def erase : RecvSome B → Receiver B
  | .future stage _ p => .future stage (p >>= fun e => pure e.err)
  | .over r => r

/-- The receiver waits for the header of the next response. -/
def awaitsHead : RecvSome B → Bool
  | .future _ _ (.act (.readHead _) _) => true
  | _ => false

def NoOk : RecvSome B → Prop
  | .future _ _ p => ClientStream.NoOk p
  | .over _ => True

end RecvSome

/-- A connection with the time of its last response. -/
structure Stamped (B : Type) where
  conn : Conn B
  sender : Sender B
  receiver : RecvSome B
  innerDropped : Bool
  /-- shared with whoever created the connection -/
  lastRespTs : Option UInt64
  /-- ghost: how often `read_resp` has returned `Ok(true)` -/
  responses : ℕ
  /-- ghost: for each store to `last_resp_ts`, the number of responses by then -/
  stores : List ℕ

namespace Stamped

variable {B : Type}

/-- `get_last_resp_ts`. -/
def getLastRespTs (s : Stamped B) : UInt64 :=
  match s.lastRespTs with
  | some ts => ts
  | none => 0

/-- What `recv_some` does after an `Ok`. -/
def storeLastRespTs (s : Stamped B) (now : UInt64) : Stamped B :=
  match s.lastRespTs with
  | some _ => { s with lastRespTs := some now, stores := s.stores ++ [s.responses] }
  | none => s

/-- The connection as `Conn` has it. -/
def erase (s : Stamped B) : Sys B where
  conn := s.conn
  sender := s.sender
  receiver := s.receiver.erase
  innerDropped := s.innerDropped

variable [ClientTask B]

/-- A turn of `recv_one_resp` has ended. -/
def endTurn (pf : Platform) (now : UInt64) (s : Stamped B) (i : ℕ) (e : TurnEnd) : Stamped B :=
  let s := { s with responses := s.responses + e.gotResp.toNat }
  match e.exit with
  | none => { s with receiver := .future .polling i (recvTurn pf) }
  | some (.error _) => { s with receiver := .over .failed }
  | some (.ok ()) =>
    let s := s.storeLastRespTs now
    if i + 1 < 20 then { s with receiver := .future .polling (i + 1) (recvTurn pf) }
    -- `recv_some` returns `Ok`, and `receive_loop` polls a new one
    else { s with receiver := .future .ticking 0 (recvTurn pf) }

/-- One step of the receive loop; `now` is what `facts.get_timestamp()` returns. -/
def stepReceiver (pf : Platform) (tick : Bool) (arrival : Arrival) (now : UInt64)
    (s : Stamped B) : Option (Stamped B) :=
  match s.receiver with
  | .future .suspended i p => some { s with receiver := .future .ticking i p }
  | .future .ticking i p =>
    if tick then some { s with conn := s.conn.timeReach, receiver := .future .ticking i p }
    else some { s with receiver := .future .checking i p }
  | .future .checking i p =>
    if s.conn.hasErr then some { s with conn := s.conn.dropFuture, receiver := .over .failed }
    else some { s with receiver := .future .pulling i p }
  | .future .pulling i p =>
    some { s with
      conn := s.conn.setTimer s.conn.timer.pollSentTask.1, receiver := .future .polling i p }
  | .future .polling i (.ret e) => some (s.endTurn pf now i e)
  | .future .polling _ (.act .panic _) =>
    some { s with conn := s.conn.dropFuture, receiver := .over .panicked }
  | .future .polling i (.act o k) =>
    match RecvOp.exec arrival o s.conn with
    | (c, some r) =>
      some { s with
        conn := { c with recv := receiving.next s.conn.recv o r }
        receiver := .future .polling i (k r) }
    | (c, none) => some { s with conn := c, receiver := .future .suspended i (.act o k) }
  | .over r =>
    (Sys.stepReceiver pf tick arrival s.conn r).map fun q =>
      { s with conn := q.1, receiver := .over q.2 }

/-- The steps: those of the receive loop as above, the others as they were. -/
def next (cfg : ConnConfig) (s : Stamped B) : Label B × UInt64 → Option (Stamped B)
  | (.receiver tick arrival, now) => s.stepReceiver cfg.platform tick arrival now
  | (l, _) => (s.erase.next cfg l).map fun t =>
      { s with conn := t.conn, sender := t.sender, innerDropped := t.innerDropped }

/-- `ClientStream::connect` with this `last_resp_ts`. -/
def init (cfg : ConnConfig) (lastRespTs : Option UInt64) : Stamped B where
  conn := .new cfg
  sender := .idle
  receiver := .future .suspended 0 (recvTurn cfg.platform)
  innerDropped := false
  lastRespTs
  responses := 0
  stores := []

/-! ## What a step does -/

/-- From `s` to `s'` nothing is stored, and `Conn` makes this step. -/
structure Unstored (cfg : ConnConfig) (l : Label B) (s s' : Stamped B) : Prop where
  noOk : s'.receiver.NoOk
  lastRespTs : s'.lastRespTs = s.lastRespTs
  stores : s'.stores = s.stores
  next : s.erase.next cfg l = some s'.erase

/-- A step of the receiver that `Conn` makes as well. -/
theorem unstored_of_step {cfg : ConnConfig} {s : Stamped B} {tick : Bool} {arrival : Arrival}
    {c : Conn B} (r : RecvSome B) (hnoOk : r.NoOk)
    (hstep : Sys.stepReceiver cfg.platform tick arrival s.conn s.receiver.erase =
      some (c, r.erase)) (responses : ℕ) :
    Unstored cfg (.receiver tick arrival) s { s with conn := c, receiver := r, responses } :=
  ⟨hnoOk, rfl, rfl, congrArg (Option.map _) hstep⟩

theorem endTurn_unstored {cfg : ConnConfig} {s : Stamped B} {i : ℕ} {e : TurnEnd}
    (hreceiver : s.receiver = .future .polling i (.ret e)) (h : e.exit ≠ some (.ok ()))
    (tick : Bool) (arrival : Arrival) (now : UInt64) :
    Unstored cfg (.receiver tick arrival) s (s.endTurn cfg.platform now i e) := by
  obtain ⟨read, _ | err | ⟨⟩⟩ := e
  · refine unstored_of_step (.future .polling i (recvTurn cfg.platform)) (noOk_recvTurn _) ?_ _
    rw [hreceiver, RecvSome.erase, RecvSome.erase, ← recvOneResp_eq]
    rfl
  · refine unstored_of_step (.over .failed) trivial ?_ _
    rw [hreceiver]
    rfl
  · exact absurd rfl h

/-- An operation of the receive future that is no panic. -/
theorem stepReceiver_act (pf : Platform) (tick : Bool) (arrival : Arrival) (now : UInt64)
    {s : Stamped B} {i : ℕ} {o : RecvOp B} (h : o ≠ .panic) {k : o.Res → Recv B TurnEnd}
    (hreceiver : s.receiver = .future .polling i (.act o k)) :
    s.stepReceiver pf tick arrival now =
      match RecvOp.exec arrival o s.conn with
      | (c, some r) =>
        some { s with
          conn := { c with recv := receiving.next s.conn.recv o r }
          receiver := .future .polling i (k r) }
      | (c, none) => some { s with conn := c, receiver := .future .suspended i (.act o k) } := by
  rw [stepReceiver, hreceiver]
  cases o <;> first | rfl | exact absurd rfl h

theorem polling_unstored {cfg : ConnConfig} {s s' : Stamped B} {tick : Bool} {arrival : Arrival}
    {now : UInt64} {i : ℕ} {p : Recv B TurnEnd} (hreceiver : s.receiver = .future .polling i p)
    (h : NoOk p) (hstep : s.stepReceiver cfg.platform tick arrival now = some s') :
    Unstored cfg (.receiver tick arrival) s s' := by
  cases p with
  | ret e =>
    rw [stepReceiver, hreceiver] at hstep
    cases hstep
    exact endTurn_unstored hreceiver h tick arrival now
  | act o k =>
    by_cases hpanic : o = .panic
    · subst hpanic
      rw [stepReceiver, hreceiver] at hstep
      cases hstep
      refine unstored_of_step (.over .panicked) trivial ?_ _
      rw [hreceiver]
      rfl
    · have hsys := Sys.stepReceiver_act cfg.platform tick arrival s.conn hpanic
        fun r => k r >>= fun e => pure e.err
      rw [stepReceiver_act _ _ _ _ hpanic hreceiver] at hstep
      rcases hexec : RecvOp.exec arrival o s.conn with ⟨c, _ | r⟩
      · rw [hexec] at hstep hsys
        cases hstep
        refine unstored_of_step (.future .suspended i (.act o k)) h ?_ _
        rw [hreceiver]
        exact hsys
      · rw [hexec] at hstep hsys
        cases hstep
        refine unstored_of_step (.future .polling i (k r)) (h.2 r) ?_ _
        rw [hreceiver]
        exact hsys

theorem stepReceiver_unstored {cfg : ConnConfig} {s s' : Stamped B} {tick : Bool}
    {arrival : Arrival} {now : UInt64} (h : s.receiver.NoOk)
    (hstep : s.stepReceiver cfg.platform tick arrival now = some s') :
    Unstored cfg (.receiver tick arrival) s s' := by
  rcases hreceiver : s.receiver with ⟨stage, i, p⟩ | r
  · rw [hreceiver] at h
    cases stage with
    | suspended =>
      rw [stepReceiver, hreceiver] at hstep
      cases hstep
      refine unstored_of_step (.future .ticking i p) h ?_ _
      rw [hreceiver]
      rfl
    | ticking =>
      simp only [stepReceiver, hreceiver] at hstep
      split at hstep
      · rename_i htick
        cases hstep
        refine unstored_of_step (.future .ticking i p) h ?_ _
        rw [hreceiver]
        exact if_pos htick
      · rename_i htick
        cases hstep
        refine unstored_of_step (.future .checking i p) h ?_ _
        rw [hreceiver]
        exact if_neg htick
    | checking =>
      simp only [stepReceiver, hreceiver] at hstep
      split at hstep
      · rename_i herr
        cases hstep
        refine unstored_of_step (.over .failed) trivial ?_ _
        rw [hreceiver]
        exact if_pos herr
      · rename_i herr
        cases hstep
        refine unstored_of_step (.future .pulling i p) h ?_ _
        rw [hreceiver]
        exact if_neg herr
    | pulling =>
      rw [stepReceiver, hreceiver] at hstep
      cases hstep
      refine unstored_of_step (.future .polling i p) h ?_ _
      rw [hreceiver]
      rfl
    | polling => exact polling_unstored hreceiver h hstep
  · simp only [stepReceiver, hreceiver] at hstep
    obtain ⟨q, hq, rfl⟩ := Option.map_eq_some_iff.mp hstep
    refine unstored_of_step (.over q.2) trivial ?_ _
    rw [hreceiver]
    exact hq

/-- The other steps leave the receiver alone. -/
theorem receiver_of_next {cfg : ConnConfig} {s s' : Sys B} {l : Label B}
    (hl : ∀ tick arrival, l ≠ .receiver tick arrival) (h : s.next cfg l = some s') :
    s'.receiver = s.receiver := by
  cases l with
  | receiver tick arrival => exact absurd rfl (hl tick arrival)
  | call call =>
    simp only [Sys.next] at h
    split at h
    · cases h
      rfl
    · cases h
  | sender ok =>
    obtain ⟨q, -, rfl⟩ := Option.map_eq_some_iff.mp h
    rfl
  | dropInner =>
    simp only [Sys.next] at h
    split at h
    · cases h
      rfl
    · cases h

theorem next_unstored {cfg : ConnConfig} {s s' : Stamped B} {l : Label B} {now : UInt64}
    (h : s.receiver.NoOk) (hnext : s.next cfg (l, now) = some s') : Unstored cfg l s s' := by
  -- the receiver is the same before and after
  have hother : ∀ t : Sys B, t.receiver = s.erase.receiver → s.erase.next cfg l = some t →
      Unstored cfg l s
        { s with conn := t.conn, sender := t.sender, innerDropped := t.innerDropped } := by
    intro t hreceiver hsys
    refine ⟨h, rfl, rfl, hsys.trans (congrArg some ?_)⟩
    obtain ⟨conn, sender, receiver, innerDropped⟩ := t
    rw [erase, ← show receiver = s.receiver.erase from hreceiver]
  cases l with
  | receiver tick arrival => exact stepReceiver_unstored h hnext
  | call call =>
    obtain ⟨t, hsys, rfl⟩ := Option.map_eq_some_iff.mp hnext
    exact hother t (receiver_of_next (l := .call call) nofun hsys) hsys
  | sender ok =>
    obtain ⟨t, hsys, rfl⟩ := Option.map_eq_some_iff.mp hnext
    exact hother t (receiver_of_next (l := .sender ok) nofun hsys) hsys
  | dropInner =>
    obtain ⟨t, hsys, rfl⟩ := Option.map_eq_some_iff.mp hnext
    exact hother t (receiver_of_next (l := .dropInner) nofun hsys) hsys

/-! ## Runs -/

/-- `last_resp_ts` has been stored once for each response, the last time after the last. -/
def Current (s : Stamped B) : Prop :=
  s.stores.length = s.responses ∧ s.stores.getLast? = some s.responses

instance (s : Stamped B) : Decidable s.Current := inferInstanceAs (Decidable (_ ∧ _))

variable {cfg : ConnConfig} {lastRespTs : Option UInt64} {s : Stamped B}

theorem unstored_of_reach (h : Lts.Reach (next cfg) (fun _ _ => True) (init cfg lastRespTs) s) :
    s.receiver.NoOk ∧ s.lastRespTs = lastRespTs ∧ s.stores = [] := by
  refine h.invariant (I := fun s => s.receiver.NoOk ∧ s.lastRespTs = lastRespTs ∧ s.stores = [])
    ⟨noOk_recvTurn _, rfl, rfl⟩ ?_
  rintro s ⟨l, now⟩ s' ⟨hnoOk, hts, hstores⟩ - hnext
  have hstep := next_unstored hnoOk hnext
  exact ⟨hstep.noOk, hstep.lastRespTs.trans hts, hstep.stores.trans hstores⟩

/-- Without the outer loop and the time, these are the runs of `Conn`. -/
theorem reach_erase (h : Lts.Reach (next cfg) (fun _ _ => True) (init cfg lastRespTs) s) :
    Lts.Reach (Sys.next cfg) (fun _ _ => True) (Sys.init cfg) s.erase := by
  induction h with
  | init =>
    have herase : (init cfg lastRespTs : Stamped B).erase = Sys.init cfg := by
      rw [Sys.init, recvOneResp_eq]
      rfl
    rw [herase]
    exact .init
  | @step s s' l hreach _ hnext ih =>
    obtain ⟨hnoOk, -, -⟩ := unstored_of_reach hreach
    obtain ⟨l, now⟩ := l
    exact .step l ih trivial (next_unstored hnoOk hnext).next

/-- **The time of the last response is never stored.** In every run of a connection with a
`last_resp_ts`, in every state in which a response has been received and the receiver waits
for the next: the store has not been made, and `get_last_resp_ts` returns what it returned
at first. -/
theorem last_resp_ts_never_stored {ts : UInt64}
    (h : Lts.Reach (next cfg) (fun _ _ => True) (init cfg (some ts)) s) :
    (1 ≤ s.responses → s.receiver.awaitsHead = true → ¬ s.Current) ∧ s.getLastRespTs = ts := by
  obtain ⟨-, hts, hstores⟩ := unstored_of_reach h
  constructor
  · rintro - - ⟨-, hlast⟩
    rw [hstores] at hlast
    cases hlast
  · rw [getLastRespTs, hts]

open Sys in
/-- A request is sent and answered, at the time 77; the receiver waits for the next header. -/
def oneAnswer : List (Label APIClientReq × UInt64) :=
  (.call (.sendTask ⟨0, 0, .new "calc.add" [1]⟩ true) :: (sends 12 ++ receives 5 ++
    .receiver false (.bytes (RespHead.new 0 1 2 0).toBytes) :: .receiver false .nothing ::
      .receiver false (.bytes [146, 1]) :: receives 5)).map fun l => (l, 77)

theorem last_resp_ts_oneAnswer :
    ∃ s : Stamped APIClientReq,
      Lts.Reach (next Sys.apiConfig) (fun _ _ => True) (init Sys.apiConfig (some 5)) s ∧
      s.conn.completed.length = 1 ∧ s.getLastRespTs = 5 := by
  have hrun : (Lts.exec (next Sys.apiConfig) (fun _ _ => True) (init Sys.apiConfig (some 5))
      oneAnswer).any (fun s => s.conn.completed.length == 1) = true := by decide +kernel
  obtain ⟨s, hreach, htest⟩ := Lts.Reach.exists_of_exec hrun
  exact ⟨s, hreach, beq_iff_eq.mp htest, (last_resp_ts_never_stored hreach).2⟩

/-- One response has been received and none stored. -/
theorem last_resp_ts_not_current :
    ∃ s : Stamped APIClientReq,
      Lts.Reach (next Sys.apiConfig) (fun _ _ => True) (init Sys.apiConfig (some 5)) s ∧
      s.responses = 1 ∧ s.receiver.awaitsHead = true ∧ ¬ s.Current := by
  have hrun : (Lts.exec (next Sys.apiConfig) (fun _ _ => True) (init Sys.apiConfig (some 5))
      oneAnswer).any (fun s => decide (s.responses = 1 ∧ s.receiver.awaitsHead = true ∧
        ¬ s.Current)) = true := by decide +kernel
  obtain ⟨s, hreach, htest⟩ := Lts.Reach.exists_of_exec hrun
  exact ⟨s, hreach, of_decide_eq_true htest⟩

end Stamped

end RazorRpc
