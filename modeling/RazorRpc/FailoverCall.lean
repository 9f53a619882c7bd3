import RazorRpc.Api
import RazorRpc.Failover
import Mathlib.Algebra.Order.BigOperators.Group.List

/-!
# Calls over a failover pool (`src/client/mod.rs`)

`APIClientCaller::call` wraps a second retry loop around the pool's: it sends the
request, and when the answer is a user's error that asks for a failover, submits the
request again, at an address or at the next node, until the limit is used up.

* `Verdict`, `reading` — what a call makes of an answer;
* `ApiFailover` — a pool with the calls under way; everything else that happens to
  the pool happens in between;
* `ApiCall.subs` — the submissions of a call, in order: the `k`-th was made after the
  `k`-th failover.

`resubmit` passes the count of failovers on to the retry counter of the task in one
of its two branches; `sends_within_budget` says when the budget is kept nevertheless.
-/

namespace RazorRpc

/-! ## What a call makes of an answer -/

inductive Verdict : Type where
  /-- the call returns -/
  | finish
  /-- submit again at this address -/
  | redirect (addr : String)
  /-- submit again at the next node -/
  | nextNode
  deriving DecidableEq

/-- The answer is an error of the user. -/
def APIClientReq.IsUserErr (r : APIClientReq) : Prop :=
  (∃ n, r.res = some (.error (.num n))) ∨ ∃ b, r.res = some (.error (.buf b))

/-- How the types of a call read an answer; only errors of the user make it fail
over. -/
structure Reading where
  verdict : APIClientReq → Verdict
  isUserErr : ∀ r, verdict r ≠ .finish → r.IsUserErr

/-- What the loop of `call` does with a result. -/
def Verdict.ofResult {E R : Type} [RpcErrDecode E] :
    Option (Except (RpcError E) R) → Verdict
  | some (.error (.user e)) =>
    match RpcErrDecode.shouldFailover e with
    | .ok (some addr) => .redirect addr
    | .ok none => .nextNode
    | .error () => .finish
  | _ => .finish

/-- The reading of a call with error type `E` and response type `R`. -/
def reading (E R : Type) [RpcErrDecode E] [Serde R] [Inhabited R] : Reading where
  verdict r := .ofResult (r.processRes E R).2
  isUserErr r h := by
    rcases hres : r.res with _ | ⟨e⟩ | ⟨⟩
    · simp only [APIClientReq.processRes, hres] at h
      exact absurd rfl h
    · cases e with
      | num n => exact Or.inl ⟨n, hres⟩
      | buf b => exact Or.inr ⟨b, hres⟩
      | rpc e | static s =>
        simp only [APIClientReq.processRes, hres] at h
        exact absurd rfl h
    · simp only [APIClientReq.processRes, hres] at h
      rcases hresp : r.resp with _ | resp
      · simp only [hresp] at h
        exact absurd rfl h
      · simp only [hresp] at h
        rcases hdec : (Serde.decode resp : Option R) with _ | msg
        · simp only [hdec] at h
          exact absurd rfl h
        · simp only [hdec] at h
          exact absurd rfl h

/-! ## The system -/

/-- How a submission came about. -/
inductive Via : Type where
  /-- `send_req` -/
  | first
  /-- `resubmit(Ok(addr))` -/
  | redirect
  /-- `resubmit(Err(last_index))` -/
  | nextNode
  deriving DecidableEq

/-- A call under way. -/
structure ApiCall where
  reading : Reading
  retryCount : ℕ
  /-- the call waits for an answer -/
  waiting : Bool
  /-- ghost: its submissions -/
  subs : List (ℕ × Via)

/-- A failover pool and the calls on it. -/
structure ApiFailover where
  pool : FailoverPool APIClientReq
  calls : List ApiCall

inductive ApiEvent : Type where
  /-- anything that is not a step of a call -/
  | pool (e : FailoverEvent APIClientReq)
  /-- a call begins -/
  | call (reading : Reading) (action : String) (reqMsg : List UInt8) (view : ℕ)
      (healthy : PoolRef → Bool)
  /-- the `j`-th call gets its answer -/
  | answer (j : ℕ) (view : ℕ) (healthy : PoolRef → Bool)

namespace ApiFailover

def init (inner : FailoverPoolInner) (retryLimit : ℕ) : ApiFailover :=
  { pool := .new inner retryLimit, calls := [] }

/-- What has arrived on the channel the call waits at. -/
def answerOf (s : ApiFailover) (c : ApiCall) : Option (Task APIClientReq) :=
  c.subs.getLast?.bind fun sub => s.pool.completed.find? (·.id = sub.1)

/-- The call submits its request again. -/
def resubmitted (s : ApiFailover) (j : ℕ) (c : ApiCall) (via : Via)
    (pool : FailoverPool APIClientReq) : ApiFailover where
  pool := pool
  calls := s.calls.set j { c with
    retryCount := c.retryCount + 1, subs := c.subs ++ [(s.pool.submitted.length, via)] }

/-- The call returns. -/
def returned (s : ApiFailover) (j : ℕ) (c : ApiCall) : ApiFailover :=
  { s with calls := s.calls.set j { c with waiting := false } }

/-- The body of the loop of `call`, with an answer. -/
def onAnswer (s : ApiFailover) (j : ℕ) (c : ApiCall) (d : Task APIClientReq) (view : ℕ)
    (healthy : PoolRef → Bool) : Option ApiFailover :=
  let retryCount := c.retryCount + 1
  -- `process_res` takes the result out
  let task := { d with body := { d.body with res := none } }
  match c.reading.verdict d.body with
  | .finish => some (s.returned j c)
  | .redirect addr =>
    if retryCount < s.pool.retryLimit then
      (s.pool.next (.redirect task addr retryCount none)).map (s.resubmitted j c .redirect)
    else some (s.returned j c)
  | .nextNode =>
    if retryCount < s.pool.retryLimit then
      (s.pool.next (.resubmit task (UInt64.ofNat d.body.lastIndex) view healthy)).map
        (s.resubmitted j c .nextNode)
    else some (s.returned j c)

def next (s : ApiFailover) : ApiEvent → Option ApiFailover
  | .pool e => (s.pool.next e).map fun pool => { s with pool }
  | .call reading action reqMsg view healthy =>
    (s.pool.next (.sendReq ⟨0, 0, .new action reqMsg⟩ view healthy)).map fun pool =>
      { pool
        calls := s.calls ++
          [{ reading, retryCount := 0, waiting := true
             subs := [(s.pool.submitted.length, .first)] }] }
  | .answer j view healthy => do
    let c ← s.calls[j]?
    if !c.waiting then none
    else
      let d ← s.answerOf c
      s.onAnswer j c d view healthy

end ApiFailover

/-! ## What a step of the pool puts on record -/

/-- An error below `Method`. -/
def Outcome.isRetriable : Outcome → Bool
  | .rpc e => decide (e < .method)
  | _ => false

theorem Outcome.Retriable.isRetriable {o : Outcome} (h : o.Retriable) : o.isRetriable = true := by
  obtain ⟨e, rfl, he⟩ := h
  exact decide_eq_true he

/-- How many attempts ended in a retriable error. -/
def Record.errors {B : Type} (r : Record B) : ℕ := r.attempts.countP (·.outcome.isRetriable)

/-- What the retry state of a task submitted by this event starts with. -/
def FailoverEvent.budget {B : Type} : FailoverEvent B → Option (ℕ × ℕ)
  | .sendReq .. | .resubmit .. => some (0, 0)
  | .redirect _ _ retryCount maxRetries => some (retryCount, maxRetries.getD 0)
  | _ => none

namespace FailoverPool

variable {B : Type} [ClientTask B] {L : ℕ} {s s' : FailoverPool B}

/-- A task is handed on after retriable errors only. -/
theorem Inv.handed_le_errors (inv : Inv L none s) {id : ℕ} {sub : Submission B}
    (hsub : s.submitted[id]? = some sub) : (s.record id).handed ≤ (s.record id).errors + 1 := by
  have hall : ∀ l : List (Attempt B), (∀ a ∈ l, a.outcome.Retriable) →
      l.countP (·.outcome.isRetriable) = l.length := fun l hl =>
    List.countP_eq_length.mpr fun a ha => (hl a ha).isRetriable
  have hmem : id ∈ s.places := (inv.mem_places id).mpr (List.getElem?_eq_some_iff.mp hsub).1
  rcases List.mem_append.mp hmem with hmem | hmem
  · obtain ⟨t, ht, rfl⟩ := List.mem_map.mp hmem
    obtain ⟨sub', h⟩ := inv.inPools t ht
    rw [h.handed, Record.errors, hall _ h.retriable]
  · rcases List.mem_append.mp hmem with hmem | hmem
    · obtain ⟨t, ht, rfl⟩ := List.mem_map.mp hmem
      obtain ⟨sub', h⟩ := inv.queued t ht
      rw [h.handed, Record.errors, hall _ h.retriable]
      exact Nat.le_succ _
    · obtain ⟨d, hd, rfl⟩ := List.mem_map.mp hmem
      obtain ⟨sub', h⟩ := inv.completed d hd
      -- every attempt but the last one
      have hle : (s.record d.id).attempts.dropLast.countP (·.outcome.isRetriable) ≤
          (s.record d.id).errors := (List.dropLast_sublist _).countP_le
      rw [hall _ h.retriable, List.length_dropLast] at hle
      rw [h.handed]
      omega

/-- What follows a selection or an error leaves the record of submissions and attempts
alone. -/
theorem start_frame (task : Task B) (ver : UInt64) (found : Option (PoolRef × UInt64)) :
    (s.start task ver found).submitted = s.submitted ∧
      (s.start task ver found).attempts = s.attempts := by
  rcases found with _ | ⟨pool, index⟩ <;> exact ⟨rfl, rfl⟩

omit [ClientTask B] in
theorem restart_frame (t : Task (FailoverTask B)) (found : Option (PoolRef × UInt64)) :
    (s.restart t found).submitted = s.submitted ∧ (s.restart t found).attempts = s.attempts := by
  rcases found with _ | ⟨pool, index⟩ <;> exact ⟨rfl, rfl⟩

omit [ClientTask B] in
theorem errorHandle_frame (t : Task (FailoverTask B)) :
    (s.errorHandle t).submitted = s.submitted ∧ (s.errorHandle t).attempts = s.attempts := by
  rw [errorHandle]
  split
  · split <;> exact ⟨rfl, rfl⟩
  · exact ⟨rfl, rfl⟩

/-- What a step adds to the submissions, and to the attempts. -/
theorem next_history {e : FailoverEvent B} (h : s.next e = some s') :
    s.submitted <+: s'.submitted ∧ (s'.attempts = s.attempts ∨
      ∃ i work outcome t, e = .dispose i work outcome ∧ s.inPools[i]? = some t ∧
        s'.attempts = s.attempts ++ [attemptOf t work outcome]) := by
  cases next_cases h with
  | sendReq task hview hsel | resubmit task hview hsel =>
    rw [(start_frame _ _ _).1, (start_frame _ _ _).2]
    exact ⟨List.prefix_append _ _, Or.inl rfl⟩
  | redirect task retryCount maxRetries hadd => exact ⟨List.prefix_append _ _, Or.inl rfl⟩
  | done work hget =>
    exact ⟨List.prefix_rfl, Or.inr ⟨_, work, .ok, _, rfl, hget, rfl⟩⟩
  | failed work hne hget =>
    rw [(errorHandle_frame _).1, (errorHandle_frame _).2]
    exact ⟨List.prefix_rfl, Or.inr ⟨_, work, _, _, rfl, hget, rfl⟩⟩
  | giveUp view healthy hrx => exact ⟨List.prefix_rfl, Or.inl rfl⟩
  | retry hrx hview htask hsel =>
    rw [(restart_frame _ _).1, (restart_frame _ _).2]
    exact ⟨List.prefix_rfl, Or.inl rfl⟩
  | addAddr hadd => exact ⟨List.prefix_rfl, Or.inl rfl⟩
  | updateAddrs hupd => exact ⟨List.prefix_rfl, Or.inl rfl⟩
  | drop | workerExit => exact ⟨List.prefix_rfl, Or.inl rfl⟩

/-- A step that submits a task. -/
theorem submitted_next {e : FailoverEvent B} (h : s.next e = some s') {retry maxRetries : ℕ}
    (he : e.budget = some (retry, maxRetries)) :
    ∃ task, s'.submitted = s.submitted ++ [⟨task, retry, maxRetries⟩] := by
  cases next_cases h with
  | sendReq task hview hsel | resubmit task hview hsel =>
    obtain ⟨rfl, rfl⟩ := Prod.mk.inj (Option.some.inj he)
    rw [(start_frame _ _ _).1]
    exact ⟨_, rfl⟩
  | redirect task retryCount maxRetries hadd =>
    obtain ⟨rfl, rfl⟩ := Prod.mk.inj (Option.some.inj he)
    exact ⟨_, rfl⟩
  | done work hget => cases he
  | failed work hne hget => cases he
  | giveUp view healthy hrx => cases he
  | retry hrx hview htask hsel => cases he
  | addAddr hadd => cases he
  | updateAddrs hupd => cases he
  | drop | workerExit => cases he

/-- A disposal is the only step that counts as an error, and only of its own task. -/
theorem errors_next {e : FailoverEvent B} (h : s.next e = some s') (id : ℕ) :
    (s'.record id).errors = (s.record id).errors ∨
      ∃ i work outcome t, e = .dispose i work outcome ∧ s.inPools[i]? = some t ∧ t.id = id ∧
        outcome.isRetriable = true ∧ (s'.record id).errors = (s.record id).errors + 1 := by
  rcases (next_history h).2 with hsame | ⟨i, work, outcome, t, rfl, hget, happend⟩
  · rw [Record.errors, record, hsame]
    exact Or.inl rfl
  · have hid : (attemptOf t work outcome).id = t.id :=
      (outcome.id_set _).trans (retryState_foldl_apply work t).1
    have hsum : (s'.record id).errors = (s.record id).errors +
        ([attemptOf t work outcome].filter (·.id = id)).countP (·.outcome.isRetriable) := by
      rw [Record.errors, record, happend, List.filter_append, List.countP_append]
      rfl
    rw [hsum]
    by_cases hcase : t.id = id ∧ outcome.isRetriable = true
    · refine Or.inr ⟨i, work, outcome, t, rfl, hget, hcase.1, hcase.2, congrArg _ ?_⟩
      have hone : [attemptOf t work outcome].filter (·.id = id) = [attemptOf t work outcome] :=
        List.filter_eq_self.mpr fun a ha => by
          rw [List.mem_singleton.mp ha]
          exact decide_eq_true (hid.trans hcase.1)
      rw [hone]
      exact List.countP_cons_of_pos hcase.2
    · refine Or.inl (Nat.add_eq_left.mpr (List.countP_eq_zero.mpr fun a ha hretriable => ?_))
      obtain ⟨ha, htest⟩ := List.mem_filter.mp ha
      obtain rfl := List.mem_singleton.mp ha
      exact hcase ⟨hid.symm.trans (of_decide_eq_true htest), hretriable⟩

end FailoverPool

/-! ## The budget of a call -/

/-- What the retry counter of a task starts with, if it is submitted after the `k`-th
failover; the first submission is made after none. -/
def Via.retry (k : ℕ) : Via → ℕ
  | .first | .redirect => k
  | .nextNode => 0

namespace ApiFailover

/-- Transport errors that a submission to the next node may meet: after the `k`-th
failover, no more than are left of the limit. -/
def Frugal (s : ApiFailover) : ApiEvent → Prop
  | .pool (.dispose i _ outcome) =>
    ∀ t ∈ s.pool.inPools[i]?, outcome.isRetriable = true → ∀ c ∈ s.calls,
      ∀ k < c.subs.length, c.subs[k]? = some (t.id, .nextNode) →
        (s.pool.record t.id).errors + 1 ≤ s.pool.retryLimit - k
  | _ => True

instance (s : ApiFailover) : (e : ApiEvent) → Decidable (s.Frugal e)
  | .pool (.dispose i _ _) => inferInstanceAs (Decidable (∀ t ∈ s.pool.inPools[i]?, _))
  | .pool (.sendReq ..) | .pool (.redirect ..) | .pool (.resubmit ..) | .pool (.retry ..)
  | .pool (.getOrAddAddr _) | .pool (.updateAddrs _) | .pool .drop | .pool .workerExit
  | .call .. | .answer .. => inferInstanceAs (Decidable True)

/-- The submissions of a call are as `resubmit` makes them, and those to the next node
have met no more errors than were left of the limit. -/
def SubsOk (L : ℕ) (pool : FailoverPool APIClientReq) (subs : List (ℕ × Via)) : Prop :=
  ∀ (k id : ℕ) (via : Via), subs[k]? = some (id, via) →
    (∃ task, pool.submitted[id]? = some ⟨task, via.retry k, 0⟩) ∧
      (via = .nextNode → (pool.record id).errors ≤ L - k)

/-- The count of failovers is the number of submissions made again. -/
structure CallOk (L : ℕ) (pool : FailoverPool APIClientReq) (c : ApiCall) : Prop where
  length_eq : c.waiting = true → c.subs.length = c.retryCount + 1
  length_le : c.subs.length ≤ max 1 L
  subs : SubsOk L pool c.subs

structure Inv (L : ℕ) (s : ApiFailover) : Prop where
  pool : s.pool.Inv L none
  calls : ∀ c ∈ s.calls, CallOk L s.pool c

theorem inv_init (inner : FailoverPoolInner) (L : ℕ) : (init inner L).Inv L :=
  ⟨FailoverPool.Inv.new inner L, nofun⟩

section

variable {L : ℕ} {pool pool' : FailoverPool APIClientReq} {e : FailoverEvent APIClientReq}
  {subs : List (ℕ × Via)}

/-- After a step that counts an error against none but those that can afford it. -/
theorem SubsOk.next (hsubs : SubsOk L pool subs) (h : pool.next e = some pool')
    (herrors : ∀ i work outcome t, e = .dispose i work outcome → pool.inPools[i]? = some t →
      outcome.isRetriable = true → ∀ k, subs[k]? = some (t.id, .nextNode) →
        (pool.record t.id).errors + 1 ≤ L - k) : SubsOk L pool' subs := by
  intro k id via hk
  obtain ⟨⟨task, hsub⟩, hle⟩ := hsubs k id via hk
  obtain ⟨rest, hrest⟩ := (FailoverPool.next_history h).1
  refine ⟨⟨task, ?_⟩, fun hvia => ?_⟩
  · rw [← hrest, List.getElem?_append_left (List.getElem?_eq_some_iff.mp hsub).1]
    exact hsub
  · subst hvia
    rcases FailoverPool.errors_next h id with
      hsame | ⟨i, work, outcome, t, rfl, hget, rfl, hretriable, hsucc⟩
    · rw [hsame]
      exact hle rfl
    · rw [hsucc]
      exact herrors i work outcome t rfl hget hretriable k hk

/-- A step that submits a task counts no error. -/
theorem SubsOk.next_of_budget (hsubs : SubsOk L pool subs) (h : pool.next e = some pool')
    {budget : ℕ × ℕ} (he : e.budget = some budget) : SubsOk L pool' subs := by
  refine hsubs.next h fun i work outcome t hdispose => ?_
  rw [hdispose] at he
  cases he

/-- The task submitted is the call's next submission. -/
theorem SubsOk.append (inv : pool.Inv L none) (hsubs : SubsOk L pool subs)
    (h : pool.next e = some pool') (via : Via) (he : e.budget = some (via.retry subs.length, 0)) :
    SubsOk L pool' (subs ++ [(pool.submitted.length, via)]) := by
  intro k id via' hk
  by_cases hlt : k < subs.length
  · rw [List.getElem?_append_left hlt] at hk
    exact hsubs.next_of_budget h he k id via' hk
  · have hk' := (List.getElem?_eq_some_iff.mp hk).1
    rw [List.length_append, List.length_singleton] at hk'
    obtain rfl : k = subs.length := by omega
    rw [List.getElem?_concat_length] at hk
    obtain ⟨rfl, rfl⟩ := Prod.mk.inj (Option.some.inj hk)
    obtain ⟨task, hsub⟩ := FailoverPool.submitted_next h he
    refine ⟨⟨task, ?_⟩, fun _ => ?_⟩
    · rw [hsub, List.getElem?_concat_length]
    · -- nothing is on record about a new submission
      have hnone : (pool.record pool.submitted.length).errors = 0 := by
        rw [inv.fresh _ (Nat.le_refl _)]
        rfl
      rcases FailoverPool.errors_next h pool.submitted.length with hsame | ⟨i, work, outcome, t, rfl, -⟩
      · rw [hsame, hnone]
        exact Nat.zero_le _
      · cases he

end

variable {L : ℕ} {s s' : ApiFailover}

/-- Whatever happens to the pool. -/
theorem Inv.pool_step (inv : s.Inv L) {e : FailoverEvent APIClientReq} (hfrugal : s.Frugal (.pool e))
    (h : s.next (.pool e) = some s') : s'.Inv L := by
  obtain ⟨pool, hnext, rfl⟩ := Option.map_eq_some_iff.mp h
  refine ⟨inv.pool.step hnext, fun c hc => ?_⟩
  obtain ⟨heq, hle, hsubs⟩ := inv.calls c hc
  refine ⟨heq, hle, hsubs.next hnext ?_⟩
  rintro i work outcome t rfl hget hretriable k hk
  rw [← inv.pool.limit]
  exact hfrugal t hget hretriable c hc k (List.getElem?_eq_some_iff.mp hk).1 hk

/-- A call begins. -/
theorem Inv.call (inv : s.Inv L) {reading : Reading} {action : String} {reqMsg : List UInt8}
    {view : ℕ} {healthy : PoolRef → Bool}
    (h : s.next (.call reading action reqMsg view healthy) = some s') : s'.Inv L := by
  obtain ⟨pool, hnext, rfl⟩ := Option.map_eq_some_iff.mp h
  refine ⟨inv.pool.step hnext, fun c hc => ?_⟩
  rcases List.mem_append.mp hc with hc | hc
  · obtain ⟨heq, hle, hsubs⟩ := inv.calls c hc
    exact ⟨heq, hle, hsubs.next_of_budget hnext rfl⟩
  · rw [List.mem_singleton.mp hc]
    have hnil : SubsOk L s.pool [] := nofun
    exact ⟨fun _ => rfl, Nat.le_max_left 1 L, hnil.append inv.pool hnext .first rfl⟩

/-- A call submits its request again. -/
theorem Inv.resubmitted (inv : s.Inv L) {j : ℕ} {c : ApiCall} (hc : c ∈ s.calls)
    (hwaiting : c.waiting = true) (hlimit : c.retryCount + 1 < s.pool.retryLimit) {via : Via}
    {e : FailoverEvent APIClientReq} {pool : FailoverPool APIClientReq}
    (h : s.pool.next e = some pool) (he : e.budget = some (via.retry (c.retryCount + 1), 0)) :
    (s.resubmitted j c via pool).Inv L := by
  refine ⟨inv.pool.step h, fun c' hc' => ?_⟩
  rcases List.mem_or_eq_of_mem_set hc' with hc' | rfl
  · obtain ⟨heq, hle, hsubs⟩ := inv.calls c' hc'
    exact ⟨heq, hle, hsubs.next_of_budget h he⟩
  · obtain ⟨heq, -, hsubs⟩ := inv.calls c hc
    have hlen := heq hwaiting
    rw [← hlen] at he
    rw [inv.pool.limit] at hlimit
    refine ⟨fun _ => ?_, ?_, hsubs.append inv.pool h _ he⟩
    · rw [List.length_append, List.length_singleton, hlen]
    · rw [List.length_append, List.length_singleton, hlen]
      omega

/-- A call returns. -/
theorem Inv.returned (inv : s.Inv L) (j : ℕ) {c : ApiCall} (hc : c ∈ s.calls) :
    (s.returned j c).Inv L := by
  refine ⟨inv.pool, fun c' hc' => ?_⟩
  rcases List.mem_or_eq_of_mem_set hc' with hc' | rfl
  · exact inv.calls c' hc'
  · obtain ⟨-, hle, hsubs⟩ := inv.calls c hc
    exact ⟨nofun, hle, hsubs⟩

/-- What a call does with its answer. -/
theorem Inv.onAnswer (inv : s.Inv L) {j : ℕ} {c : ApiCall} (hc : c ∈ s.calls)
    (hwaiting : c.waiting = true) {d : Task APIClientReq} {view : ℕ} {healthy : PoolRef → Bool}
    (h : s.onAnswer j c d view healthy = some s') : s'.Inv L := by
  simp only [ApiFailover.onAnswer] at h
  split at h
  · cases h
    exact inv.returned j hc
  · split at h
    · rename_i hlimit
      obtain ⟨pool, hnext, rfl⟩ := Option.map_eq_some_iff.mp h
      exact inv.resubmitted hc hwaiting hlimit hnext rfl
    · cases h
      exact inv.returned j hc
  · split at h
    · rename_i hlimit
      obtain ⟨pool, hnext, rfl⟩ := Option.map_eq_some_iff.mp h
      exact inv.resubmitted hc hwaiting hlimit hnext rfl
    · cases h
      exact inv.returned j hc

/-- Every step keeps the invariant, if it is frugal. -/
theorem Inv.step (inv : s.Inv L) {e : ApiEvent} (hfrugal : s.Frugal e) (h : s.next e = some s') :
    s'.Inv L := by
  cases e with
  | pool e => exact inv.pool_step hfrugal h
  | call reading action reqMsg view healthy => exact inv.call h
  | answer j view healthy =>
    obtain ⟨c, hget, h⟩ := Option.bind_eq_some_iff.mp h
    split at h
    · cases h
    · rename_i hwaiting
      obtain ⟨d, -, h⟩ := Option.bind_eq_some_iff.mp h
      exact inv.onAnswer (List.mem_of_getElem? hget) (by simpa using hwaiting) h

/-- How often the request of a call was given to a pool, over all its submissions. -/
def timesSent (s : ApiFailover) (c : ApiCall) : ℕ :=
  (c.subs.map fun sub => s.pool.timesHanded sub.1).sum

/-- A submission is given to pools no more often than is left of the limit. -/
theorem Inv.timesHanded_le (inv : s.Inv L) {c : ApiCall} (hc : c ∈ s.calls) {k id : ℕ} {via : Via}
    (hk : c.subs[k]? = some (id, via)) : s.pool.timesHanded id ≤ L - k + 1 := by
  obtain ⟨-, hlength, hsubs⟩ := inv.calls c hc
  obtain ⟨⟨task, hsub⟩, herrors⟩ := hsubs k id via hk
  have hlt := (List.getElem?_eq_some_iff.mp hk).1
  have hwithin := (inv.pool.within hsub).limit
  rw [Submission.limit, if_neg (Nat.lt_irrefl 0)] at hwithin
  change s.pool.timesHanded id ≤ 1 ∨ via.retry k + s.pool.timesHanded id ≤ L + 1 at hwithin
  cases via with
  | first | redirect =>
    rw [Via.retry] at hwithin
    omega
  | nextNode =>
    have hle : s.pool.timesHanded id ≤ (s.pool.record id).errors + 1 :=
      inv.pool.handed_le_errors hsub
    have := herrors rfl
    omega

/-- **One budget for both kinds of failover.** In every run in which a submission to
the next node meets no more transport errors than were left of the limit, the
submission made after the `k`-th failover of a call is given to pools at most
`L - k + 1` times, and the request of a call at most `(L + 1) + L + ... + 2` times. -/
theorem sends_within_budget {inner : FailoverPoolInner}
    (h : Lts.Reach next Frugal (init inner L) s) {c : ApiCall} (hc : c ∈ s.calls) :
    (∀ (k id : ℕ) (via : Via), c.subs[k]? = some (id, via) →
        s.pool.timesHanded id ≤ L - k + 1) ∧
      s.timesSent c ≤ ((List.range (max 1 L)).map fun k => L - k + 1).sum := by
  have inv : s.Inv L :=
    h.invariant (inv_init inner L) fun _ _ _ inv hok hnext => inv.step hok hnext
  have hle : ∀ (k id : ℕ) (via : Via), c.subs[k]? = some (id, via) →
      s.pool.timesHanded id ≤ L - k + 1 := fun k id via hk => inv.timesHanded_le hc hk
  refine ⟨hle, ?_⟩
  have hsum : s.timesSent c ≤ ((List.range c.subs.length).map fun k => L - k + 1).sum := by
    rw [timesSent]
    refine List.Forall₂.sum_le_sum (List.forall₂_iff_get.mpr ⟨?_, fun k hk _ => ?_⟩)
    · rw [List.length_map, List.length_map, List.length_range]
    · rw [List.length_map] at hk
      simp only [List.get_eq_getElem, List.getElem_map, List.getElem_range]
      exact hle k _ _ (List.getElem?_eq_getElem hk)
  -- no call has more submissions than the limit allows
  have hsub : (List.range c.subs.length).Sublist (List.range (max 1 L)) :=
    List.range_sublist.mpr (inv.calls c hc).length_le
  exact Nat.le_trans hsum ((hsub.map _).sum_le_sum fun _ _ => Nat.zero_le _)

/-- The node that has the request asks for the next one. -/
def askNext : ApiEvent := .pool (.dispose 0 [.setSeq 1] (.custom (.buf (Bytes.ofStr "retry_next"))))

/-- The connection fails, and the retry worker hands the request on. -/
def failAndRetry : List ApiEvent :=
  [.pool (.dispose 0 [.setSeq 1] (.rpc .io)), .pool (.retry 0 fun _ => true)]

/-- A call that is redirected to `b`, then sent on to the next node. -/
def redirectThenNext : List ApiEvent :=
  [.call (reading ClusterErr Unit) "calc.inc" [1] 0 fun _ => true,
    .pool (.dispose 0 [.setSeq 1] (.custom (.buf (Bytes.ofStr "redirect_b")))),
    .answer 0 0 fun _ => true] ++ failAndRetry ++ failAndRetry ++
  [askNext, .answer 0 0 fun _ => true] ++ failAndRetry

/-- Every submission uses up its budget. -/
theorem sends_within_budget_redirectThenNext :
    ∃ (inner : FailoverPoolInner) (s : ApiFailover) (c : ApiCall),
      FailoverPoolInner.new ["a", "b"] true = some inner ∧
        Lts.Reach next Frugal (init inner 3) s ∧ c ∈ s.calls ∧
        c.subs = [(0, .first), (1, .redirect), (2, .nextNode)] ∧ s.pool.timesHanded 1 = 3 ∧
        s.pool.timesHanded 2 = 2 ∧ s.timesSent c ≤ 9 := by
  have hrun : (FailoverPoolInner.new ["a", "b"] true).any (fun inner =>
      (Lts.exec next Frugal (init inner 3) redirectThenNext).any fun s =>
        decide ((s.calls[0]?).any (fun c =>
          decide (c.subs = [(0, .first), (1, .redirect), (2, .nextNode)])) = true ∧
            s.pool.timesHanded 1 = 3 ∧ s.pool.timesHanded 2 = 2)) = true := by
    decide +kernel
  obtain ⟨inner, hinner, hexec⟩ := (Option.any_eq_true _ _).mp hrun
  obtain ⟨s, hreach, htest⟩ := Lts.Reach.exists_of_exec hexec
  obtain ⟨hcall, hone, htwo⟩ := of_decide_eq_true htest
  obtain ⟨c, hget, hsubs⟩ := (Option.any_eq_true _ _).mp hcall
  have hc : c ∈ s.calls := List.mem_of_getElem? hget
  exact ⟨inner, s, c, hinner, hreach, hc, of_decide_eq_true hsubs, hone, htwo,
    (sends_within_budget hreach hc).2⟩

/-- After one failover to the next node the request is given to pools four times, with
a limit of three. -/
theorem nextNode_exceeds_budget :
    ∃ (inner : FailoverPoolInner) (s : ApiFailover) (c : ApiCall),
      FailoverPoolInner.new ["a", "b"] true = some inner ∧
        Lts.Reach next (fun _ _ => True) (init inner 3) s ∧ c ∈ s.calls ∧
        c.subs = [(0, .first), (1, .nextNode)] ∧ ¬ s.pool.timesHanded 1 ≤ 3 - 1 + 1 := by
  have hrun : (FailoverPoolInner.new ["a", "b"] true).any (fun inner =>
      (Lts.exec next (fun _ _ => True) (init inner 3)
        ([.call (reading ClusterErr Unit) "calc.inc" [1] 0 fun _ => true, askNext,
          .answer 0 0 fun _ => true] ++ failAndRetry ++ failAndRetry ++ failAndRetry)).any fun s =>
        decide ((s.calls[0]?).any (fun c =>
          decide (c.subs = [(0, .first), (1, .nextNode)])) = true ∧
            ¬ s.pool.timesHanded 1 ≤ 3 - 1 + 1)) = true := by
    decide +kernel
  obtain ⟨inner, hinner, hexec⟩ := (Option.any_eq_true _ _).mp hrun
  obtain ⟨s, hreach, htest⟩ := Lts.Reach.exists_of_exec hexec
  obtain ⟨hcall, hmore⟩ := of_decide_eq_true htest
  obtain ⟨c, hget, hsubs⟩ := (Option.any_eq_true _ _).mp hcall
  exact ⟨inner, s, c, hinner, hreach, List.mem_of_getElem? hget, of_decide_eq_true hsubs, hmore⟩

end ApiFailover

end RazorRpc
