import RazorRpc.Session
import RazorRpc.EndToEnd

/-!
# Calls of the API layer (`src/server/dispatch.rs`, `src/client/task.rs`)

An API client and an API server, with a connection between them on which anything may fail
at any time. The reader of the server hands what it reads to the dispatcher; the services
run what was dispatched, one request after the other and in any order; the caller takes what
came of its call out of the completed request.

* `apiDispatched`, `ServiceStatic.perform` — what the dispatcher takes, and what comes of it,
  against `dispatchReq` (`dispatchReq_taken`, `exists_perform`);
* `Method.respItem` against `process_res` — what a caller makes of the answer of a method;
* `ApiSession`, `ApiSession.next` — a session with the state of the services beside it;
* `ServiceStatic.replay` — the state a sequence of requests leaves: all that a single caller
  without a network would see;
* `ApiSession.Served` — the invariant: the services are as a replay of the requests that were
  run leaves them, and every answer is that of its request at its place in this replay.

The results are `calls_linearizable` and, for the dispatcher that runs a request before the
next one is read (`Inline`), `inline_in_order`.
-/

namespace RazorRpc

open Bytes

/-! ## The dispatcher -/

section

variable {W : Type}

/-- What `APIDispatch::dispatch_req` does: a request whose action has a dot goes to the
services, and any other is refused. -/
def apiDispatched (req : RpcSvrReq) : Dispatched :=
  let taken :=
    match req.action with
    | .str action => (splitOnce '.' action).isSome
    | .num _ => false
  ⟨taken, taken⟩

/-- A request that the dispatcher takes is served: its answer, and the state of the services
afterwards. -/
def ServiceStatic.perform (api : ServiceStatic W) (req : RpcSvrReq) (w : W) :
    Option (APIServerResp × W) :=
  match dispatchReq api req ⟨⟨true, []⟩, w⟩ with
  | some (.ok (), ⟨⟨_, [.ok resp]⟩, w'⟩) => some (resp, w')
  | _ => none

/-- The state of the services after these requests. -/
def ServiceStatic.replay (api : ServiceStatic W) (w : W) (reqs : List RpcSvrReq) : W :=
  reqs.foldl (fun w req => ((api.perform req w).map Prod.snd).getD w) w

theorem ServiceStatic.replay_concat (api : ServiceStatic W) (w : W) (reqs : List RpcSvrReq)
    {req : RpcSvrReq} {resp : APIServerResp} {w' : W}
    (h : api.perform req (api.replay w reqs) = some (resp, w')) :
    api.replay w (reqs ++ [req]) = w' := by
  rw [replay] at h
  rw [replay, List.foldl_append, List.foldl_cons, List.foldl_nil, h]
  rfl

/-- `dispatch_req` returns what `apiDispatched` says. -/
theorem dispatchReq_taken (api : ServiceStatic W) (req : RpcSvrReq) (s : ServerConn W) :
    ∃ s', dispatchReq api req s =
      some (if (apiDispatched req).ok then .ok () else .error (), s') := by
  rcases haction : req.action with action | n
  · rcases hsplit : splitOnce '.' action with _ | ⟨service, method⟩
    · refine ⟨s, ?_⟩
      simp only [dispatchReq, apiDispatched, haction, hsplit]
      rfl
    · obtain ⟨hparts, hdot⟩ := splitOnce_eq_some hsplit
      obtain ⟨item, w', hserve, -⟩ :=
        api.serve_answer ⟨haction.trans (congrArg RpcAction.str hparts), hdot⟩ s
      refine ⟨s.after item w', ?_⟩
      simp only [dispatchReq, apiDispatched, haction, hsplit]
      rw [Handling.bind_some hserve]
      rfl
  · refine ⟨s, ?_⟩
    simp only [dispatchReq, apiDispatched, haction]
    rfl

theorem ServiceStatic.answer_of_perform {api : ServiceStatic W} {req : RpcSvrReq}
    {resp : APIServerResp} {w w' : W} (h : api.perform req w = some (resp, w')) :
    Answer api req w (.ok resp) w' := by
  rw [perform] at h
  rcases dispatchReq_answer api req ⟨⟨true, []⟩, w⟩ with
    ⟨item, w₁, hdispatch, hanswer⟩ | ⟨hdispatch, -⟩
  · rw [hdispatch] at h
    cases item with
    | error e => cases h
    | ok resp' =>
      cases h
      exact hanswer
  · rw [hdispatch] at h
    cases h

/-- A request with a dot in its action is not answered by the reader. -/
theorem Answer.exists_ok {api : ServiceStatic W} {req : RpcSvrReq} {w w' : W} {item : RespItem}
    (h : Answer api req w item w') {service method : String} (hcalls : req.Calls service method) :
    ∃ resp, item = .ok resp := by
  cases h with
  | ping haction => cases haction.symm.trans hcalls.1
  | number haction => cases haction.symm.trans hcalls.1
  | undotted haction hdot =>
    rw [RpcAction.str.inj (haction.symm.trans hcalls.1)] at hdot
    simp at hdot
  | _ => exact ⟨_, rfl⟩

/-- And what is kept as a task is served, whatever the state of the services. -/
theorem ServiceStatic.exists_perform (api : ServiceStatic W) {req : RpcSvrReq}
    (htaken : (apiDispatched req).kept = true) (w : W) :
    ∃ resp w', api.perform req w = some (resp, w') := by
  rcases haction : req.action with action | n
  · rcases hsplit : splitOnce '.' action with _ | ⟨service, method⟩
    · simp only [apiDispatched, haction, hsplit] at htaken
      cases htaken
    · obtain ⟨hparts, hdot⟩ := splitOnce_eq_some hsplit
      have hcalls : req.Calls service method :=
        ⟨haction.trans (congrArg RpcAction.str hparts), hdot⟩
      obtain ⟨item, w', hserve, hanswer⟩ := api.serve_answer hcalls ⟨⟨true, []⟩, w⟩
      obtain ⟨resp, rfl⟩ := hanswer.exists_ok hcalls
      refine ⟨resp, w', ?_⟩
      simp only [perform, dispatchReq, haction, hsplit]
      rw [Handling.bind_some hserve]
      rfl
  · simp only [apiDispatched, haction] at htaken
    cases htaken

/-- A call of a method is taken. -/
theorem RpcSvrReq.Calls.taken {req : RpcSvrReq} {service method : String}
    (h : req.Calls service method) : (apiDispatched req).kept = true := by
  have hsplit := splitOnce_append h.2 method
  rw [show String.singleton '.' = "." from rfl] at hsplit
  simp only [apiDispatched, h.1, hsplit]
  rfl

/-! ## What the caller makes of an answer -/

/-- The request calls this method with this argument. -/
structure APIClientReq.Calls (r : APIClientReq) (api : ServiceStatic W) (m : Method W)
    (arg : m.Arg) : Prop where
  action : ∃ svc : Service W, r.action = serviceMethod svc.name m.name ∧
    api.Has svc.name svc ∧ m ∈ svc.methods
  arg : ∃ msg, r.reqMsg = some msg ∧ Serde.decode msg = some arg

/-- If it is an error of the user's, it comes back as itself. -/
def Method.Carries (m : Method W) (res : Except (RpcError m.Err) m.Resp) : Prop :=
  ∀ e, res = .error (.user e) → RpcErrDecode.Inverts e ∧ RpcErrCodec.Unreserved e

/-- The response that reports an error says which. -/
theorem Resp.body_of_ofError? {seq : UInt64} {e : EncodedErr} {r : Resp}
    (h : ofError? seq e = some r) : r.body = .ofError e := by
  rw [ofError?] at h
  split at h
  · cases h
    rfl
  · cases h

/-- An error of the user's is taken out as it was put in. -/
theorem APIClientReq.processRes_ofError {E R : Type} [RpcErrDecode E] [Serde R] [Inhabited R]
    {e : E} (hinv : RpcErrDecode.Inverts e) (hfree : RpcErrCodec.Unreserved e)
    (t : Task APIClientReq) :
    (((RespBody.ofError (RpcErrCodec.encode e)).complete t).task.body.processRes E R).2 =
      some (.error (.user e)) := by
  rw [RpcErrDecode.Inverts] at hinv
  rw [RpcErrCodec.Unreserved] at hfree
  have hstring : ∀ s, RespHead.errString (RpcErrCodec.encode e) = some s →
      (RpcErrCodec.encode e).onWire = .error s →
      (((RespBody.errString s).complete t).task.body.processRes E R).2 =
        some (.error (.user e)) := by
    intro s hs hwire
    rw [hwire] at hinv
    have hset := setErrString_unreserved t fun x hx => hfree x (hs.trans (congrArg some hx))
    rw [RespBody.complete, hset]
    change some (APIClientReq.decodeErr E R (.error s)) = _
    rw [APIClientReq.decodeErr, hinv]
  rcases henc : RpcErrCodec.encode e with x | n | s | b
  · exact hstring x.asBytes (by rw [henc]; rfl) (by rw [henc]; rfl)
  · rw [henc] at hinv
    change some (APIClientReq.decodeErr E R (.ok n)) = _
    rw [APIClientReq.decodeErr, show RpcErrDecode.decode (.ok n) = some e from hinv]
  · exact hstring (ofStr s) (by rw [henc]; rfl) (by rw [henc]; rfl)
  · exact hstring b (by rw [henc]; rfl) (by rw [henc]; rfl)

/-- So is a result. -/
theorem APIClientReq.processRes_ok {E R : Type} [RpcErrDecode E] [Serde R] [Inhabited R]
    {r : APIClientReq} {msg : List UInt8} {v : R} (hres : r.res = some (.ok ()))
    (hresp : r.resp = some msg) (hdecode : Serde.decode msg = some v) :
    (r.processRes E R).2 = some (.ok v) := by
  simp only [processRes, hres, hresp, hdecode]

/-- The caller sees the result of the method. -/
theorem Method.processRes_respItem {m : Method W} [Inhabited m.Resp]
    (hlawful : Serde.Lawful m.Resp) {res : Except (RpcError m.Err) m.Resp} (hres : m.Carries res)
    {seq : UInt64} {r : RazorRpc.Resp} (hr : SvrItem.resp? (m.respItem seq res) = some r)
    (t : Task APIClientReq) :
    ((r.body.complete t).task.body.processRes m.Err m.Resp).2 = some res := by
  rcases res with (e | e) | v
  · obtain ⟨hinv, hfree⟩ := hres e rfl
    have hr : RazorRpc.Resp.ofError? seq (RpcErrCodec.encode e) = some r := hr
    rw [RazorRpc.Resp.body_of_ofError? hr]
    exact APIClientReq.processRes_ofError hinv hfree t
  · have hr : RazorRpc.Resp.ofError? seq (.rpc e) = some r := hr
    rw [RazorRpc.Resp.body_of_ofError? hr, RespBody.ofError, RespBody.complete, setErrString_asBytes]
    rfl
  · obtain ⟨msg, hmsg, hne, hdecode⟩ := hlawful v
    have hitem : m.respItem seq (.ok v) = .ok ⟨seq, some msg, .ok ()⟩ := by
      simp only [respItem, hmsg]
    have hbody : r.body = .ok msg [] := by
      rw [hitem] at hr
      change EncodedResp.resp? ⟨seq, msg, .ok (msg.length, none)⟩ = some r at hr
      simp only [EncodedResp.resp?, if_neg hne] at hr
      split at hr
      · split at hr
        · cases hr
          rfl
        · cases hr
      · cases hr
    simp only [hbody, RespBody.complete, placeBlob, decodeMsg, if_neg hne, if_pos]
    simp only [Task.decodeResp, ClientTask.decodeResp, List.isEmpty_eq_false_iff.mpr hne]
    exact APIClientReq.processRes_ok rfl rfl hdecode

end

/-! ## What the server answers -/

namespace SvrConn

section

variable {T : Type}

/-- An answer is given. -/
theorem send_answers (s : SvrConn T) (i : ℕ) (item : SvrItem T) :
    s.answered ⊆ (s.send i item).answered ∧ i ∈ (s.send i item).answered ∧
      ∀ a ∈ (s.send i item).answers, a ∈ s.answers ∨ a = (i, item) := by
  obtain ⟨-, -, -, hanswered, -⟩ := Placed.send_frame s i item
  refine ⟨fun j hj => hanswered.symm.subset (List.mem_cons_of_mem _ hj),
    hanswered.symm.subset List.mem_cons_self, ?_⟩
  rcases s.send_cases i item with ⟨-, hsend⟩ | ⟨-, hsend⟩
  · rw [hsend]
    exact fun a ha => Or.inl ha
  · rw [hsend]
    exact fun a ha => (List.mem_append.mp ha).imp_right List.mem_singleton.mp

/-- A request is read: the reader answers a ping, or one that is refused. -/
theorem read_answers (s : SvrConn T) (req : RpcSvrReq) (d : Dispatched) :
    s.answered ⊆ (s.read req d).answered ∧ ∀ a ∈ (s.read req d).answers, a ∈ s.answers ∨
      ∃ e, a = (s.reqs.length, .error e) ∧ (req.IsPing ∨ d.ok = false) := by
  have hquick : ∀ (s₁ : SvrConn T) (err : Option RpcIntErr), s₁.answered = s.answered →
      s₁.answers = s.answers → (req.IsPing ∨ d.ok = false) →
      s.answered ⊆ (s₁.sendQuickResp s.reqs.length req.seq err).answered ∧
        ∀ a ∈ (s₁.sendQuickResp s.reqs.length req.seq err).answers, a ∈ s.answers ∨
          ∃ e, a = (s.reqs.length, .error e) ∧ (req.IsPing ∨ d.ok = false) := by
    intro s₁ err hanswered hanswers hquick
    obtain ⟨hgrows, -, hnew⟩ := s₁.send_answers s.reqs.length (.error (req.seq, err))
    rw [hanswered] at hgrows
    rw [hanswers] at hnew
    exact ⟨hgrows, fun a ha => (hnew a ha).imp_right fun ha => ⟨_, ha, hquick⟩⟩
  obtain ⟨kept, ok⟩ := d
  unfold read
  dsimp only
  split
  · rename_i hping
    exact hquick _ none rfl rfl (Or.inl hping)
  · cases ok with
    | false => cases kept <;> exact hquick _ (some .decode) rfl rfl (Or.inr rfl)
    | true => cases kept <;> exact ⟨List.Subset.refl _, fun a ha => Or.inl ha⟩

end

variable {T : Type} [ServerTaskEncode T] {s s' : SvrConn T} {l : SvrLabel T}

/-- Answers come of tasks, each to its own request, and of the reader. -/
theorem next_answers (h : next s l = some s') :
    s.answered ⊆ s'.answered ∧ ∀ a ∈ s'.answers, a ∈ s.answers ∨
      (∃ i task, l = .finish i task ∧ a = (i, .ok task)) ∨
        ∃ req d e, l = .read req d ∧ a = (s.reqs.length, .error e) ∧
          (req.IsPing ∨ d.ok = false) := by
  cases l with
  | read req d =>
    simp only [next] at h
    split at h
    · cases h
      obtain ⟨hanswered, hnew⟩ := s.read_answers req d
      refine ⟨hanswered, fun a ha => (hnew a ha).imp_right ?_⟩
      rintro ⟨e, ha, hquick⟩
      exact Or.inr ⟨req, d, e, rfl, ha, hquick⟩
    · cases h
  | readErr =>
    simp only [next] at h
    split at h
    · cases h
      exact ⟨List.Subset.refl _, fun a ha => Or.inl ha⟩
    · cases h
  | finish i task =>
    simp only [next] at h
    split at h
    · cases h
      obtain ⟨hanswered, -, hnew⟩ :=
        send_answers { s with tasks := s.tasks.erase i } i (.ok task)
      exact ⟨hanswered, fun a ha => (hnew a ha).imp_right fun ha => Or.inl ⟨i, task, rfl, ha⟩⟩
    · cases h
  | abandon i =>
    simp only [next] at h
    split at h
    · cases h
      exact ⟨List.Subset.refl _, fun a ha => Or.inl ha⟩
    · cases h
  | writer r =>
    cases stepWriter_cases h <;> exact ⟨List.Subset.refl _, fun a ha => Or.inl ha⟩
  | pass n =>
    cases h
    exact ⟨List.Subset.refl _, fun a ha => Or.inl ha⟩

/-- A request that is read goes to the tasks or not; else none comes to them. -/
theorem next_tasks (h : next s l = some s') :
    (l.isRead = false → s'.tasks.Sublist s.tasks) ∧
      (l.isRead = true → s'.tasks = s.tasks ∨ s'.tasks = s.tasks ++ [s.reqs.length]) ∧
      ∀ i task, l = .finish i task → s'.tasks = s.tasks.erase i := by
  cases l with
  | read req d =>
    refine ⟨Bool.noConfusion, fun _ => ?_, fun _ _ h => by cases h⟩
    simp only [next] at h
    split at h
    · cases h
      have hquick : ∀ (s₁ : SvrConn T) (err : Option RpcIntErr),
          (s₁.sendQuickResp s.reqs.length req.seq err).tasks = s₁.tasks := fun s₁ err =>
        (Placed.send_frame s₁ s.reqs.length (.error (req.seq, err))).1
      obtain ⟨kept, ok⟩ := d
      unfold read
      dsimp only
      split
      · exact Or.inl (hquick _ none)
      · cases kept with
        | false =>
          cases ok with
          | false => exact Or.inl (hquick _ (some .decode))
          | true => exact Or.inl rfl
        | true =>
          cases ok with
          | false => exact Or.inr (hquick _ (some .decode))
          | true => exact Or.inr rfl
    · cases h
  | finish i task =>
    simp only [next] at h
    split at h
    · cases h
      have htasks := (Placed.send_frame { s with tasks := s.tasks.erase i } i (.ok task)).1
      refine ⟨fun _ => htasks ▸ List.erase_sublist, Bool.noConfusion, ?_⟩
      rintro i' task' ⟨⟩
      exact htasks
    · cases h
  | readErr =>
    simp only [next] at h
    split at h
    · cases h
      exact ⟨fun _ => List.Sublist.refl _, Bool.noConfusion, fun _ _ h => by cases h⟩
    · cases h
  | abandon i =>
    simp only [next] at h
    split at h
    · cases h
      exact ⟨fun _ => List.erase_sublist, Bool.noConfusion, fun _ _ h => by cases h⟩
    · cases h
  | writer r =>
    refine ⟨fun _ => ?_, Bool.noConfusion, fun _ _ h => by cases h⟩
    cases stepWriter_cases h <;> exact List.Sublist.refl _
  | pass n =>
    cases h
    exact ⟨fun _ => List.Sublist.refl _, Bool.noConfusion, fun _ _ h => by cases h⟩

/-- The result of a task is the answer to its request. -/
theorem finish_answered {i : ℕ} {task : T}
    (h : next s (.finish i task) = some s') : i ∈ s.tasks ∧ i ∈ s'.answered := by
  simp only [next] at h
  split at h
  · rename_i hi
    cases h
    exact ⟨hi, (send_answers { s with tasks := s.tasks.erase i } i (.ok task)).2.1⟩
  · cases h

/-- A request with its task has not been answered. -/
theorem Placed.not_answered {i : ℕ} (h : s.Placed) (hi : i ∈ s.tasks) : i ∉ s.answered := by
  have hnodup := (h.places.nodup_iff).mpr List.nodup_range
  have hdisjoint := List.disjoint_of_nodup_append (List.nodup_append.mp hnodup).1
  exact fun hanswered => hdisjoint hi hanswered

end SvrConn

/-! ## The system -/

/-- An API client and an API server. -/
structure ApiSession (W : Type) where
  session : Session APIClientReq APIServerResp
  /-- the state of the services -/
  world : W
  /-- ghost: the requests that were run, in order, with their places among the requests read -/
  ran : List (ℕ × RpcSvrReq)

/-- What happens next. -/
inductive ApiLabel : Type where
  /-- the server reads a request, and the dispatcher takes it or refuses it -/
  | serve
  /-- the services run a request that the dispatcher has taken -/
  | run (i : ℕ)
  /-- anything else -/
  | other (l : SessionLabel APIClientReq APIServerResp)

/-- The server reads a request, or a task gets its result. -/
def SessionLabel.isServing {B T : Type} : SessionLabel B T → Bool
  | .serve _ | .server (.finish _ _) => true
  | _ => false

/-- An answer of the services has the number they gave it. -/
theorem APIServerResp.seq_answer (resp : APIServerResp) :
    SvrItem.seq (.ok resp) = RespItem.seq (.ok resp) := by
  obtain ⟨seq, _ | msg, _ | _⟩ := resp <;> rfl

/-- What a step besides these does at the server. -/
theorem Session.server_of_next {B T : Type} [ClientTask B] [ServerTaskEncode T] {cfg : ConnConfig}
    {alloc : Int32 → Bool} {s s' : Session B T} {l : SessionLabel B T}
    (h : next cfg alloc s l = some s') (hl : l.isServing = false) :
    s'.server = s.server ∨ ∃ l', SvrConn.next s.server l' = some s'.server ∧
      l'.isRead = false ∧ ∀ i task, l' ≠ .finish i task := by
  have hclient : ∀ {l : OutletLabel B} {wire : Wire}, s.moveClient cfg l wire = some s' →
      s'.server = s.server := by
    intro l wire hmove
    obtain ⟨client, -, rfl⟩ := Option.map_eq_some_iff.mp hmove
    rfl
  cases l with
  | call | sender | receiver | broken | dropInner | pass => exact Or.inl (hclient h)
  | serve d => cases hl
  | server l =>
    simp only [next] at h
    split at h
    · cases h
    · rename_i hread
      obtain ⟨server, hserver, rfl⟩ := Option.map_eq_some_iff.mp h
      refine Or.inr ⟨l, hserver, Bool.eq_false_iff.mpr hread, ?_⟩
      rintro i task rfl
      cases hl

namespace ApiSession

variable {W : Type}

def init (cfg : ConnConfig) (w : W) : ApiSession W := ⟨Session.init cfg, w, []⟩

/-- One step of the system. -/
def next (cfg : ConnConfig) (alloc : Int32 → Bool) (api : ServiceStatic W) (s : ApiSession W) :
    ApiLabel → Option (ApiSession W)
  | .serve =>
    match TcpServer.readReq alloc s.session.unread with
    | .ok (req, _) =>
      (Session.next cfg alloc s.session (.serve (apiDispatched req))).map fun session =>
        { s with session }
    | .error _ => none
  | .run i => do
    let req ← s.session.server.reqs[i]?
    let (resp, world) ← api.perform req s.world
    let session ← Session.next cfg alloc s.session (.server (.finish i resp))
    return ⟨session, world, s.ran ++ [(i, req)]⟩
  | .other l =>
    if l.isServing then none
    else (Session.next cfg alloc s.session l).map fun session => { s with session }

/-- What is asked of a session is asked here, where it is not so by itself: of an answer of the
services, that it is a response. -/
def Fit (api : ServiceStatic W) (s : ApiSession W) : ApiLabel → Prop
  | .serve => True
  | .run i => ∀ req ∈ s.session.server.reqs[i]?, ∀ r ∈ api.perform req s.world,
    (SvrItem.resp? (.ok r.1)).isSome = true
  | .other l => s.session.Fit l

instance (api : ServiceStatic W) (s : ApiSession W) : (l : ApiLabel) → Decidable (Fit api s l)
  | .serve => .isTrue trivial
  | .run i => inferInstanceAs (Decidable (∀ req ∈ s.session.server.reqs[i]?, _))
  | .other l => inferInstanceAs (Decidable (s.session.Fit l))

/-- Of this, what requests depend on. -/
def ClientFit (s : ApiSession W) : ApiLabel → Prop
  | .serve => True
  | .run _ => True
  | .other l => s.session.ClientFit l

instance (s : ApiSession W) : (l : ApiLabel) → Decidable (ClientFit s l)
  | .serve | .run _ => .isTrue trivial
  | .other l => inferInstanceAs (Decidable (s.session.ClientFit l))

theorem Fit.client {api : ServiceStatic W} {s : ApiSession W} {l : ApiLabel} (h : Fit api s l) :
    ClientFit s l := by
  cases l with
  | serve | run => exact trivial
  | other l => exact Session.Fit.client h

variable {cfg : ConnConfig} {alloc : Int32 → Bool} {api : ServiceStatic W} {w₀ : W}
  {s s' : ApiSession W}

/-- The server reads. -/
theorem next_serve (h : next cfg alloc api s .serve = some s') :
    ∃ req rest session, TcpServer.readReq alloc s.session.unread = .ok (req, rest) ∧
      Session.next cfg alloc s.session (.serve (apiDispatched req)) = some session ∧
      SvrConn.next s.session.server (.read req (apiDispatched req)) = some session.server ∧
      s' = { s with session } := by
  simp only [next] at h
  rcases hread : TcpServer.readReq alloc s.session.unread with e | ⟨req, rest⟩
  · rw [hread] at h
    cases h
  · rw [hread] at h
    obtain ⟨session, hsession, rfl⟩ := Option.map_eq_some_iff.mp h
    refine ⟨req, rest, session, rfl, hsession, ?_, rfl⟩
    simp only [Session.next, hread] at hsession
    obtain ⟨server, hserver, rfl⟩ := Option.map_eq_some_iff.mp hsession
    exact hserver

/-- A request is run. -/
theorem next_run {i : ℕ} (h : next cfg alloc api s (.run i) = some s') :
    ∃ req resp w session, s.session.server.reqs[i]? = some req ∧
      api.perform req s.world = some (resp, w) ∧
      Session.next cfg alloc s.session (.server (.finish i resp)) = some session ∧
      SvrConn.next s.session.server (.finish i resp) = some session.server ∧
      s' = ⟨session, w, s.ran ++ [(i, req)]⟩ := by
  obtain ⟨req, hreq, h⟩ := Option.bind_eq_some_iff.mp h
  obtain ⟨⟨resp, w⟩, hperform, h⟩ := Option.bind_eq_some_iff.mp h
  obtain ⟨session, hsession, h⟩ := Option.bind_eq_some_iff.mp h
  cases h
  refine ⟨req, resp, w, session, hreq, hperform, hsession, ?_, rfl⟩
  obtain ⟨server, hserver, rfl⟩ := Option.map_eq_some_iff.mp hsession
  exact hserver

/-- The result of a request that was run is one of a proper task. -/
theorem proper_finish {i : ℕ} {req : RpcSvrReq} {resp : APIServerResp} {w : W}
    (hreq : s.session.server.reqs[i]? = some req)
    (hperform : api.perform req s.world = some (resp, w)) :
    s.session.server.Proper (.finish i resp) := by
  intro req' hreq'
  obtain rfl : req = req' := Option.some.inj (hreq.symm.trans hreq')
  exact resp.seq_answer.trans (ServiceStatic.answer_of_perform hperform).seq_eq

/-- It is a step of the session. -/
theorem session_next {l : ApiLabel} (h : next cfg alloc api s l = some s') :
    ∃ l', Session.next cfg alloc s.session l' = some s'.session ∧
      (Fit api s l → s.session.Fit l') ∧ (ClientFit s l → s.session.ClientFit l') := by
  cases l with
  | serve =>
    obtain ⟨req, rest, session, -, hsession, -, rfl⟩ := next_serve h
    exact ⟨.serve (apiDispatched req), hsession, fun _ hok => hok, fun _ => trivial⟩
  | run i =>
    obtain ⟨req, resp, w, session, hreq, hperform, hsession, -, rfl⟩ := next_run h
    exact ⟨.server (.finish i resp), hsession,
      fun hfit => ⟨proper_finish hreq hperform, hfit req hreq (resp, w) hperform⟩, fun _ => trivial⟩
  | other l =>
    simp only [next] at h
    split at h
    · cases h
    · obtain ⟨session, hsession, rfl⟩ := Option.map_eq_some_iff.mp h
      exact ⟨l, hsession, id, id⟩

theorem session_of_reach (h : Lts.Reach (next cfg alloc api) (Fit api) (init cfg w₀) s) :
    Lts.Reach (Session.next cfg alloc) Session.Fit (Session.init cfg) s.session := by
  refine h.invariant (I := fun s : ApiSession W =>
    Lts.Reach (Session.next cfg alloc) Session.Fit (Session.init cfg) s.session) .init ?_
  intro s l s' hreach hfit hnext
  obtain ⟨l', hsession, hfit', -⟩ := session_next hnext
  exact .step l' hreach (hfit' hfit) hsession

theorem delivers_of_reach (h : Lts.Reach (next cfg alloc api) ClientFit (init cfg w₀) s) :
    s.session.Delivers cfg alloc := by
  refine h.invariant (I := fun s : ApiSession W => s.session.Delivers cfg alloc) .init ?_
  intro s l s' hdelivers hfit hnext
  obtain ⟨l', hsession, -, hfit'⟩ := session_next hnext
  exact hdelivers.step (hfit' hfit) hsession

/-- Whatever is asked of the rest, the server is a connection with a proper dispatcher. -/
theorem server_of_reach {ok : ApiSession W → ApiLabel → Prop}
    (h : Lts.Reach (next cfg alloc api) ok (init cfg w₀) s) :
    Lts.Reach SvrConn.next SvrConn.Proper SvrConn.init s.session.server := by
  refine h.invariant (I := fun s : ApiSession W =>
    Lts.Reach SvrConn.next SvrConn.Proper SvrConn.init s.session.server) .init ?_
  intro s l s' hreach _ hnext
  cases l with
  | serve =>
    obtain ⟨req, rest, session, -, -, hserver, rfl⟩ := next_serve hnext
    exact .step (.read req (apiDispatched req)) hreach (fun hok => hok) hserver
  | run i =>
    obtain ⟨req, resp, w, session, hreq, hperform, -, hserver, rfl⟩ := next_run hnext
    exact .step (.finish i resp) hreach (proper_finish hreq hperform) hserver
  | other l =>
    simp only [next] at hnext
    split at hnext
    · cases hnext
    · rename_i hl
      obtain ⟨session, hsession, rfl⟩ := Option.map_eq_some_iff.mp hnext
      rcases Session.server_of_next hsession (Bool.eq_false_iff.mpr hl) with
        hsame | ⟨l', hserver, hread, hfinish⟩
      · exact hsame ▸ hreach
      · exact .step l' hreach (.of_aside hread hfinish) hserver

/-! ## The invariant -/

/-- This request was run, in this state of the services. -/
def RanIn (api : ServiceStatic W) (w₀ : W) (ran : List (ℕ × RpcSvrReq)) (a : ℕ × RpcSvrReq)
    (w : W) : Prop :=
  ∃ before after, ran = before ++ a :: after ∧ w = api.replay w₀ (before.map Prod.snd)

theorem RanIn.append {ran : List (ℕ × RpcSvrReq)} {a : ℕ × RpcSvrReq} {w : W}
    (h : RanIn api w₀ ran a w) (later : List (ℕ × RpcSvrReq)) :
    RanIn api w₀ (ran ++ later) a w := by
  obtain ⟨before, after, rfl, hw⟩ := h
  exact ⟨before, after ++ later, by rw [List.append_assoc, List.cons_append], hw⟩

/-- The services are as a replay of the requests that were run leaves them; no request was run
twice; the server's answers are those of the services, each of its place in the replay, and
the reader's to what the dispatcher refuses. -/
structure Served (api : ServiceStatic W) (w₀ : W) (s : ApiSession W) : Prop where
  world : s.world = api.replay w₀ (s.ran.map Prod.snd)
  places : ∀ a ∈ s.ran, s.session.server.reqs[a.1]? = some a.2
  answered : ∀ a ∈ s.ran, a.1 ∈ s.session.server.answered
  once : (s.ran.map Prod.fst).Nodup
  results : ∀ i resp, (i, .ok resp) ∈ s.session.server.answers → ∃ req w w',
    RanIn api w₀ s.ran (i, req) w ∧ api.perform req w = some (resp, w')
  refused : ∀ i e, (i, .error e) ∈ s.session.server.answers →
    ∀ req, s.session.server.reqs[i]? = some req → req.IsPing ∨ (apiDispatched req).ok = false

namespace Served

theorem init : (ApiSession.init cfg w₀).Served api w₀ :=
  ⟨rfl, fun _ h => absurd h List.not_mem_nil, fun _ h => absurd h List.not_mem_nil,
    List.nodup_nil, fun _ _ h => absurd h List.not_mem_nil, fun _ _ h => absurd h List.not_mem_nil⟩

/-- Nothing is run. -/
theorem aside (h : s.Served api w₀) (hworld : s'.world = s.world) (hran : s'.ran = s.ran)
    (hreqs : ∀ (i : ℕ) (req : RpcSvrReq), s.session.server.reqs[i]? = some req →
      s'.session.server.reqs[i]? = some req)
    (hanswered : s.session.server.answered ⊆ s'.session.server.answered)
    (hok : ∀ i resp, (i, .ok resp) ∈ s'.session.server.answers →
      (i, .ok resp) ∈ s.session.server.answers)
    (herr : ∀ i e, (i, .error e) ∈ s'.session.server.answers →
      ∀ req, s'.session.server.reqs[i]? = some req →
        req.IsPing ∨ (apiDispatched req).ok = false) : s'.Served api w₀ := by
  refine ⟨?_, ?_, ?_, ?_, fun i resp ha => ?_, herr⟩
  · rw [hworld, hran]
    exact h.world
  · rw [hran]
    exact fun a ha => hreqs a.1 a.2 (h.places a ha)
  · rw [hran]
    exact fun a ha => hanswered (h.answered a ha)
  · rw [hran]
    exact h.once
  · rw [hran]
    exact h.results i resp (hok i resp ha)

/-- A request is read. -/
theorem serve (h : s.Served api w₀) (hplaced : s.session.server.Placed)
    (hnext : next cfg alloc api s .serve = some s') : s'.Served api w₀ := by
  obtain ⟨req, rest, session, -, -, hserver, rfl⟩ := next_serve hnext
  obtain ⟨hanswered, hnew⟩ := SvrConn.next_answers hserver
  obtain ⟨-, -, -, hreqs⟩ := SvrConn.next_grows hserver
  have hreqs := hreqs req (apiDispatched req) rfl
  have hread : ∀ (i : ℕ) (req' : RpcSvrReq), s.session.server.reqs[i]? = some req' →
      session.server.reqs[i]? = some req' := by
    intro i req' hi
    rw [hreqs]
    exact SvrConn.Placed.getElem?_reqs hi
  refine h.aside rfl rfl hread hanswered (fun i resp ha => ?_) fun i e ha req' hi => ?_
  · rcases hnew _ ha with hold | ⟨i', task, hl, -⟩ | ⟨req', d, e, hl, heq, -⟩
    · exact hold
    · cases hl
    · cases heq
  · rcases hnew _ ha with hold | ⟨i', task, hl, -⟩ | ⟨req₁, d, e', hl, heq, hquick⟩
    · -- an answer given before, to a request read before
      obtain ⟨req₁, hi₁, -⟩ := hplaced.fits _ (List.mem_append_left _ hold)
      obtain rfl : req₁ = req' := Option.some.inj ((hread i req₁ hi₁).symm.trans hi)
      exact h.refused i e hold req₁ hi₁
    · cases hl
    · cases hl
      cases heq
      rw [hreqs, SvrConn.Placed.getElem?_reqs_length] at hi
      cases hi
      exact hquick

/-- A request is run. -/
theorem run (h : s.Served api w₀) (hplaced : s.session.server.Placed) {i : ℕ}
    (hnext : next cfg alloc api s (.run i) = some s') : s'.Served api w₀ := by
  obtain ⟨req, resp, w, session, hreq, hperform, -, hserver, rfl⟩ := next_run hnext
  obtain ⟨hanswered, hnew⟩ := SvrConn.next_answers hserver
  obtain ⟨-, -, hreqs, -⟩ := SvrConn.next_grows hserver
  obtain ⟨htask, hdone⟩ := SvrConn.finish_answered hserver
  have hreqs : session.server.reqs = s.session.server.reqs := hreqs rfl
  have hperform : api.perform req (api.replay w₀ (s.ran.map Prod.snd)) = some (resp, w) := by
    rw [← h.world]
    exact hperform
  refine ⟨?_, fun a ha => ?_, fun a ha => ?_, ?_, fun j resp' ha => ?_, fun j e ha => ?_⟩
  · rw [List.map_append]
    exact (api.replay_concat w₀ _ hperform).symm
  · change session.server.reqs[a.1]? = some a.2
    rw [hreqs]
    rcases List.mem_append.mp ha with ha | ha
    · exact h.places a ha
    · rw [List.mem_singleton.mp ha]
      exact hreq
  · rcases List.mem_append.mp ha with ha | ha
    · exact hanswered (h.answered a ha)
    · rw [List.mem_singleton.mp ha]
      exact hdone
  · rw [List.map_append, List.map_singleton]
    refine List.nodup_append.mpr ⟨h.once, List.nodup_singleton i, ?_⟩
    rintro j hj j' hj' rfl
    obtain ⟨a, ha, rfl⟩ := List.mem_map.mp hj
    have hi : a.1 = i := List.mem_singleton.mp hj'
    exact hplaced.not_answered htask (hi ▸ h.answered a ha)
  · rcases hnew _ ha with hold | ⟨i', task, hl, heq⟩ | ⟨req', d, e, hl, -⟩
    · obtain ⟨req', w₁, w₁', hran, hperform'⟩ := h.results j resp' hold
      exact ⟨req', w₁, w₁', hran.append _, hperform'⟩
    · cases hl
      cases heq
      exact ⟨req, _, w, ⟨s.ran, [], rfl, rfl⟩, hperform⟩
    · cases hl
  · change ∀ req', session.server.reqs[j]? = some req' → _
    rw [hreqs]
    rcases hnew _ ha with hold | ⟨i', task, hl, heq⟩ | ⟨req', d, e', hl, -⟩
    · exact h.refused j e hold
    · cases hl
      cases heq
    · cases hl

/-- Anything else. -/
theorem other (h : s.Served api w₀) {l : SessionLabel APIClientReq APIServerResp}
    (hnext : next cfg alloc api s (.other l) = some s') : s'.Served api w₀ := by
  simp only [next] at hnext
  split at hnext
  · cases hnext
  · rename_i hl
    obtain ⟨session, hsession, rfl⟩ := Option.map_eq_some_iff.mp hnext
    rcases Session.server_of_next hsession (Bool.eq_false_iff.mpr hl) with
      hsame | ⟨l', hserver, hread, hfinish⟩
    · refine h.aside rfl rfl ?_ ?_ ?_ ?_
      · exact fun i req hi => hsame ▸ hi
      · exact fun i hi => hsame ▸ hi
      · exact fun i resp ha => hsame ▸ ha
      · exact fun i e ha req hi => h.refused i e (hsame ▸ ha) req (hsame ▸ hi)
    · obtain ⟨hanswered, hnew⟩ := SvrConn.next_answers hserver
      obtain ⟨-, -, hreqs, -⟩ := SvrConn.next_grows hserver
      have hreqs := hreqs hread
      have hold : ∀ a ∈ session.server.answers, a ∈ s.session.server.answers := by
        intro a ha
        rcases hnew a ha with hold | ⟨i, task, hl, -⟩ | ⟨req, d, e, hl, -⟩
        · exact hold
        · exact absurd hl (hfinish i task)
        · rw [hl] at hread
          cases hread
      refine h.aside rfl rfl ?_ hanswered ?_ ?_
      · exact fun i req hi => hreqs ▸ hi
      · exact fun i resp ha => hold _ ha
      · exact fun i e ha req hi => h.refused i e (hold _ ha) req (hreqs ▸ hi)

end Served

/-- The invariant holds in every run. -/
theorem served_of_reach {ok : ApiSession W → ApiLabel → Prop}
    (h : Lts.Reach (next cfg alloc api) ok (init cfg w₀) s) : s.Served api w₀ := by
  induction h with
  | init => exact .init
  | @step s s' l h hfit hnext ih =>
    have hplaced := SvrConn.placed_of_reach (server_of_reach h)
    cases l with
    | serve => exact ih.serve hplaced hnext
    | run i => exact ih.run hplaced hnext
    | other l => exact ih.other hnext

/-- What was run stays in front. -/
theorem ran_of_reach {ok : ApiSession W → ApiLabel → Prop}
    (h : Lts.Reach (next cfg alloc api) ok s s') : ∃ later, s'.ran = s.ran ++ later := by
  refine h.invariant (I := fun s' => ∃ later, s'.ran = s.ran ++ later)
    ⟨[], (List.append_nil _).symm⟩ ?_
  rintro s₁ l s₂ ⟨later, hran⟩ - hnext
  cases l with
  | serve =>
    obtain ⟨req, rest, session, -, -, -, rfl⟩ := next_serve hnext
    exact ⟨later, hran⟩
  | run i =>
    obtain ⟨req, resp, w, session, -, -, -, -, rfl⟩ := next_run hnext
    exact ⟨later ++ [(i, req)], by rw [hran, List.append_assoc]⟩
  | other l =>
    simp only [next] at hnext
    split at hnext
    · cases hnext
    · obtain ⟨session, -, rfl⟩ := Option.map_eq_some_iff.mp hnext
      exact ⟨later, hran⟩

end ApiSession

/-! ## The order of requests -/

namespace Session

variable {B T : Type} [ClientTask B] [ServerTaskEncode T] {cfg : ConnConfig} {alloc : Int32 → Bool}
  {s : Session B T}

omit [ServerTaskEncode T] in
/-- The server reads requests with growing numbers, all of them given out by the client. -/
theorem reqs_sorted (halloc : ∀ n, 0 < n → alloc n = true) (hreq : AppendsWhatItReturns B)
    (h : s.Delivers cfg alloc) :
    (s.server.reqs.Pairwise fun req req' => req.seq < req'.seq) ∧
      ∀ req ∈ s.server.reqs, req.seq < s.client.sys.conn.seq := by
  obtain ⟨ops, horders⟩ := Outlet.orders_of_reach h.client
  have hfirst := reqs_first halloc hreq h horders
  obtain ⟨q, -, hordered⟩ := horders
  refine ⟨List.Pairwise.sublist hfirst.sublist ?_, fun req hmem => ?_⟩
  · refine hordered.sorted.filterMap _ fun op op' hlt req hrequest req' hrequest' => ?_
    rw [ClientOp.seq_of_request? hrequest, ClientOp.seq_of_request? hrequest']
    exact hlt
  · obtain ⟨op, hop, hrequest⟩ := List.mem_filterMap.mp (hfirst.subset hmem)
    rw [ClientOp.seq_of_request? hrequest]
    exact hordered.below op hop

end Session

/-- Of requests with growing numbers the place says which is the smaller. -/
theorem RpcSvrReq.seq_lt_of_lt {reqs : List RpcSvrReq}
    (hsorted : reqs.Pairwise fun req req' => req.seq < req'.seq) {i j : ℕ} {req req' : RpcSvrReq}
    (hi : reqs[i]? = some req) (hj : reqs[j]? = some req') (hlt : i < j) : req.seq < req'.seq := by
  obtain ⟨hi', rfl⟩ := List.getElem?_eq_some_iff.mp hi
  obtain ⟨hj', rfl⟩ := List.getElem?_eq_some_iff.mp hj
  exact List.pairwise_iff_getElem.mp hsorted i j hi' hj' hlt

/-! ## What a call comes to -/

/-- What completes a task of the API leaves its number and its request alone. -/
theorem RespBody.complete_keeps (body : RespBody) (t : Task APIClientReq) :
    (body.complete t).task.seq = t.seq ∧ (body.complete t).task.body.action = t.body.action ∧
      (body.complete t).task.body.reqMsg = t.body.reqMsg := by
  cases body with
  | errno n => exact ⟨rfl, rfl, rfl⟩
  | errString bs =>
    rw [complete, TcpClient.setErrString]
    split
    · split <;> exact ⟨rfl, rfl, rfl⟩
    · exact ⟨rfl, rfl, rfl⟩
  | ok msg blob =>
    by_cases hblob : blob = []
    · by_cases hmsg : msg = []
      · simp only [complete, placeBlob, decodeMsg, if_pos hblob, if_pos hmsg]
        exact ⟨rfl, rfl, rfl⟩
      · simp only [complete, placeBlob, decodeMsg, if_pos hblob, if_neg hmsg]
        simp only [Task.decodeResp, ClientTask.decodeResp, List.isEmpty_eq_false_iff.mpr hmsg]
        exact ⟨rfl, rfl, rfl⟩
    · simp only [complete, placeBlob, if_neg hblob]
      exact ⟨rfl, rfl, rfl⟩

/-- A task that failed on the client's side shows it. -/
theorem Completion.Local.processRes {d : Completion APIClientReq} (h : d.Local) (E R : Type)
    [RpcErrDecode E] [Serde R] [Inhabited R] :
    ∃ e, (e = .io ∨ e = .timeout) ∧ (d.task.body.processRes E R).2 = some (.error (.rpc e)) := by
  obtain ⟨t, e, rfl, he⟩ := h
  exact ⟨e, he, rfl⟩

namespace ApiSession

variable {W : Type} {cfg : ConnConfig} {alloc : Int32 → Bool} {api : ServiceStatic W} {w₀ : W}
  {s s' : ApiSession W}

theorem RanIn.mem {ran : List (ℕ × RpcSvrReq)} {a : ℕ × RpcSvrReq} {w : W}
    (h : RanIn api w₀ ran a w) : a ∈ ran := by
  obtain ⟨before, after, rfl, -⟩ := h
  exact List.mem_append_right _ List.mem_cons_self

/-- The request of a task that is a call is for the method. -/
theorem isFor_of_calls {t : Task APIClientReq} {req : RpcSvrReq}
    (hrequest : (ClientOp.task t).request? = some req) {m : Method W} {arg : m.Arg}
    (hcalls : t.body.Calls api m arg) :
    req.seq = t.seq ∧ api.IsFor req m ∧ Serde.decode req.msg = some arg := by
  obtain ⟨svc, haction, hhas, hm⟩ := hcalls.action
  obtain ⟨msg, hmsg, harg⟩ := hcalls.arg
  simp only [ClientOp.request?] at hrequest
  split at hrequest
  · cases hrequest
    refine ⟨rfl, ⟨svc.name, svc, ⟨?_, svc.dotless⟩, hhas, hm⟩, ?_⟩
    · exact congrArg RpcAction.str haction
    · simp only [ClientTask.encodeReq, hmsg]
      exact harg
  · cases hrequest

/-- A call that is completed failed on the client's side, or its request was run, and the
caller sees what the method returned there. -/
theorem Served.call (h : s.Served api w₀) (htied : s.session.Tied cfg alloc)
    (halloc : ∀ n, 0 < n → alloc n = true) {d : Completion APIClientReq}
    (hd : d ∈ s.session.client.sys.conn.completed) {m : Method W} [Inhabited m.Resp] {arg : m.Arg}
    (hcalls : d.task.body.Calls api m arg) (hlawful : Serde.Lawful m.Resp) :
    d.Local ∨ ∃ a w, RanIn api w₀ s.ran a w ∧ a.2.seq = d.task.seq ∧
      (m.Carries (m.run arg w).1 →
        (d.task.body.processRes m.Err m.Resp).2 = some (m.run arg w).1) := by
  refine (htied.answer halloc appendsWhatItReturns_api hd).imp_right ?_
  rintro ⟨t, -, ⟨i, item⟩, ha, req, r, hi, hrequest, -, hr, rfl⟩
  obtain ⟨hseq, haction, hmsg⟩ := r.body.complete_keeps t
  obtain ⟨hnumber, hfor, harg⟩ := isFor_of_calls hrequest
    ⟨haction ▸ hcalls.action, hmsg ▸ hcalls.arg⟩
  obtain ⟨service, svc, hservice, -⟩ := id hfor
  cases item with
  | error e =>
    -- the dispatcher takes it, so the reader has not answered
    rcases h.refused i e ha req hi with hping | hrefused
    · cases hservice.1.symm.trans hping.1
    · cases hrefused.symm.trans hservice.taken
  | ok resp =>
    obtain ⟨req', w, w', hran, hperform⟩ := h.results i resp ha
    obtain rfl : req' = req := Option.some.inj ((h.places _ hran.mem).symm.trans hi)
    obtain ⟨hitem, -⟩ := (ServiceStatic.answer_of_perform hperform).of_isFor hfor harg
    refine ⟨(i, req'), w, hran, hnumber.trans hseq.symm, fun hcarries => ?_⟩
    rw [hitem] at hr
    exact m.processRes_respItem hlawful hcarries hr t

/-- No two of the requests run have the same number. -/
theorem Served.seqs_nodup (h : s.Served api w₀)
    (hsorted : s.session.server.reqs.Pairwise fun req req' => req.seq < req'.seq) :
    (s.ran.map fun a => a.2.seq).Nodup := by
  refine List.Nodup.map_on ?_ (List.Nodup.of_map _ h.once)
  intro a ha b hb hseq
  have hplace : a.1 = b.1 := by
    rcases Nat.lt_trichotomy a.1 b.1 with hlt | heq | hlt
    · have hlt := RpcSvrReq.seq_lt_of_lt hsorted (h.places a ha) (h.places b hb) hlt
      exact absurd hseq (UInt64.ne_of_lt hlt)
    · exact heq
    · have hlt := RpcSvrReq.seq_lt_of_lt hsorted (h.places b hb) (h.places a ha) hlt
      exact absurd hseq.symm (UInt64.ne_of_lt hlt)
  refine Prod.ext hplace (Option.some.inj ?_)
  rw [← h.places a ha, ← h.places b hb, hplace]

/-- **Calls are linearizable, each at most once.** Whatever fails and when, and in whatever order
requests are run: the services are as running the requests `ran` one after another leaves them,
and no request is among them twice. The order is that of time: what gets its number after
this moment is run after all that was run by then. And if the responses reach the client
whole (`Fit`), who has called a method, and whose call is completed, sees an i/o error or
a time-out, or what the method returned at its place in this order. -/
theorem calls_linearizable (hallocClient : ∀ n, 0 < n → cfg.platform.alloc n = true)
    (hallocServer : ∀ n, 0 < n → alloc n = true)
    (h : Lts.Reach (next cfg alloc api) ClientFit (init cfg w₀) s) :
    (s.world = api.replay w₀ (s.ran.map Prod.snd) ∧ (s.ran.map fun a => a.2.seq).Nodup) ∧
      (∀ s', Lts.Reach (next cfg alloc api) ClientFit s s' → ∃ later, s'.ran = s.ran ++ later ∧
        ∀ b ∈ s'.ran, s.session.client.sys.conn.seq ≤ b.2.seq → b ∈ later) ∧
      (Lts.Reach (next cfg alloc api) (Fit api) (init cfg w₀) s →
        ∀ d ∈ s.session.client.sys.conn.completed, ∀ (m : Method W) [Inhabited m.Resp]
          (arg : m.Arg), d.task.body.Calls api m arg → Serde.Lawful m.Resp →
        (∃ e, (e = .io ∨ e = .timeout) ∧
          (d.task.body.processRes m.Err m.Resp).2 = some (.error (.rpc e))) ∨
        ∃ a w, RanIn api w₀ s.ran a w ∧ a.2.seq = d.task.seq ∧
          (m.Carries (m.run arg w).1 →
            (d.task.body.processRes m.Err m.Resp).2 = some (m.run arg w).1)) := by
  have hserved := served_of_reach h
  obtain ⟨hsorted, hbelow⟩ :=
    Session.reqs_sorted hallocServer appendsWhatItReturns_api (delivers_of_reach h)
  refine ⟨⟨hserved.world, hserved.seqs_nodup hsorted⟩, fun s' h' => ?_, fun hfit => ?_⟩
  · obtain ⟨later, hlater⟩ := ran_of_reach h'
    refine ⟨later, hlater, fun b hb hnew => ?_⟩
    rw [hlater] at hb
    refine (List.mem_append.mp hb).resolve_left fun hold => ?_
    have hlt := hbelow b.2 (List.mem_of_getElem? (hserved.places b hold))
    exact absurd hlt (UInt64.not_lt.mpr hnew)
  · intro d hd m _ arg hcalls hlawful
    have htied := Session.tied_of_reach hallocClient reservesExactly_api (session_of_reach hfit)
    exact (hserved.call htied hallocServer hd hcalls hlawful).imp_left fun hlocal =>
      hlocal.processRes m.Err m.Resp

/-- A counter's value, as one byte. -/
structure Count where
  value : UInt8

instance : Serde Count where
  encode c := some [c.value]
  decode
    | [b] => some ⟨b⟩
    | _ => none

instance : Inhabited Count := ⟨⟨0⟩⟩

/-- It counts up and returns the value. -/
def countUp : Method UInt8 :=
  { name := "up", Arg := Unit, Resp := Count, Err := Unit,
    run := fun _ w => (.ok ⟨w + 1⟩, w + 1) }

instance : Inhabited countUp.Resp := inferInstanceAs (Inhabited Count)

def counter : Service UInt8 := ⟨"Counter", [countUp], by decide, List.nodup_singleton _⟩

/-- Two calls, which are read in one order and run in the other. -/
def twoCounts : List ApiLabel :=
  (.other (.call (.sendTask ⟨0, 0, .new "Counter.up" [0xc0]⟩ true)) ::
      List.replicate 12 (.other (.sender .done))) ++
    (.other (.call (.sendTask ⟨1, 0, .new "Counter.up" [0xc0]⟩ true)) ::
      List.replicate 12 (.other (.sender .done))) ++
    [.serve, .serve, .run 1, .run 0] ++ List.replicate 9 (.other (.server (.writer .done))) ++
    List.replicate 16 (.other (.receiver false (some 100)))

/-- Both are completed, and each caller sees what its own run has returned. -/
theorem calls_linearizable_two :
    ∃ s : ApiSession UInt8,
      Lts.Reach (next Sys.apiConfig (fun _ => true) (.service counter)) (Fit (.service counter))
        (init Sys.apiConfig 0) s ∧
      s.session.client.sys.conn.completed.length = 2 ∧ s.ran.map Prod.fst = [1, 0] ∧
      ∀ d ∈ s.session.client.sys.conn.completed,
        (∃ e, (e = .io ∨ e = .timeout) ∧
          (d.task.body.processRes Unit Count).2 = some (.error (.rpc e))) ∨
        ∃ a w, RanIn (.service counter) 0 s.ran a w ∧ a.2.seq = d.task.seq ∧
          (d.task.body.processRes Unit Count).2 = some (.ok ⟨w + 1⟩) := by
  have hrun : (Lts.exec (next Sys.apiConfig (fun _ => true) (.service counter))
      (Fit (.service counter)) (init Sys.apiConfig 0) twoCounts).any
      (fun s => decide (s.session.client.sys.conn.completed.length = 2 ∧
        s.ran.map Prod.fst = [1, 0] ∧ ∀ d ∈ s.session.client.sys.conn.completed,
          d.task.body.action = serviceMethod "Counter" "up" ∧
            d.task.body.reqMsg = some [0xc0])) = true := by
    decide +kernel
  obtain ⟨s, hreach, htest⟩ := Lts.Reach.exists_of_exec hrun
  obtain ⟨hlen, hran, hbody⟩ := of_decide_eq_true htest
  refine ⟨s, hreach, hlen, hran, fun d hd => ?_⟩
  have halloc : ∀ n : Int32, 0 < n → (fun _ : Int32 => true) n = true := fun _ _ => rfl
  obtain ⟨haction, hmsg⟩ := hbody d hd
  have hlawful : Serde.Lawful countUp.Resp := fun c => ⟨[c.value], rfl, List.cons_ne_nil _ _, rfl⟩
  have hcalls : d.task.body.Calls (.service counter) countUp () :=
    ⟨⟨counter, haction, rfl, List.mem_singleton_self _⟩, ⟨_, hmsg, rfl⟩⟩
  have hcalls := (calls_linearizable halloc halloc (hreach.mono fun _ _ => Fit.client)).2.2 hreach
    d hd countUp () hcalls hlawful
  refine hcalls.imp_right ?_
  rintro ⟨a, w, hranIn, hseq, hres⟩
  exact ⟨a, w, hranIn, hseq, hres fun e he => by cases he⟩

/-! ## Run before the next is read -/

/-- `Inline` waits for the services before it lets the reader go on. -/
def Inline (s : ApiSession W) : ApiLabel → Prop
  | .serve => s.session.server.tasks = []
  | l => ClientFit s l

instance (s : ApiSession W) : (l : ApiLabel) → Decidable (Inline s l)
  | .serve => inferInstanceAs (Decidable (s.session.server.tasks = []))
  | .run _ => .isTrue trivial
  | .other l => inferInstanceAs (Decidable (ClientFit s (.other l)))

theorem Inline.client {l : ApiLabel} (h : Inline s l) : ClientFit s l := by
  cases l with
  | serve => exact trivial
  | run i => exact h
  | other l => exact h

/-- At most one request is with the services, and it is behind all that were run. -/
structure OneByOne (s : ApiSession W) : Prop where
  alone : s.session.server.tasks.length ≤ 1
  last : ∀ a ∈ s.ran, ∀ i ∈ s.session.server.tasks, a.1 < i
  sorted : (s.ran.map Prod.fst).Pairwise (· < ·)

theorem OneByOne.step (h : s.OneByOne) (hserved : s.Served api w₀) {l : ApiLabel}
    (hinline : Inline s l) (hnext : next cfg alloc api s l = some s') : s'.OneByOne := by
  cases l with
  | serve =>
    obtain ⟨req, rest, session, -, -, hserver, rfl⟩ := next_serve hnext
    have htasks := (SvrConn.next_tasks hserver).2.1 rfl
    have hnone : s.session.server.tasks = [] := hinline
    rw [hnone, List.nil_append] at htasks
    have hmem : ∀ i ∈ session.server.tasks, i = s.session.server.reqs.length := by
      intro i hi
      rcases htasks with htasks | htasks
      · rw [htasks] at hi
        cases hi
      · rw [htasks] at hi
        exact List.mem_singleton.mp hi
    refine ⟨?_, fun a ha i hi => ?_, h.sorted⟩
    · change session.server.tasks.length ≤ 1
      rcases htasks with htasks | htasks
      · rw [htasks]
        exact Nat.zero_le 1
      · rw [htasks]
        exact Nat.le_refl 1
    · rw [hmem i hi]
      exact (List.getElem?_eq_some_iff.mp (hserved.places a ha)).1
  | run i =>
    obtain ⟨req, resp, w, session, -, -, -, hserver, rfl⟩ := next_run hnext
    have herase := (SvrConn.next_tasks hserver).2.2 i resp rfl
    have htask := (SvrConn.finish_answered hserver).1
    -- it was the only one
    have halone : s.session.server.tasks = [i] := by
      rcases hlist : s.session.server.tasks with _ | ⟨j, _ | ⟨k, rest⟩⟩
      · rw [hlist] at htask
        cases htask
      · rw [hlist] at htask
        rw [List.mem_singleton.mp htask]
      · have hle := h.alone
        rw [hlist] at hle
        exact absurd hle (by simp)
    have hnone : session.server.tasks = [] := by
      rw [herase, halone, List.erase_cons_head]
    refine ⟨?_, ?_, ?_⟩
    · change session.server.tasks.length ≤ 1
      rw [hnone]
      exact Nat.zero_le 1
    · intro a _ j hj
      change j ∈ session.server.tasks at hj
      rw [hnone] at hj
      cases hj
    · rw [List.map_append, List.map_singleton]
      refine List.pairwise_append.mpr ⟨h.sorted, List.pairwise_singleton _ _, ?_⟩
      intro j hj k hk
      obtain ⟨a, ha, rfl⟩ := List.mem_map.mp hj
      rw [List.mem_singleton.mp hk]
      exact h.last a ha i htask
  | other l =>
    simp only [next] at hnext
    split at hnext
    · cases hnext
    · rename_i hl
      obtain ⟨session, hsession, rfl⟩ := Option.map_eq_some_iff.mp hnext
      have htasks : session.server.tasks.Sublist s.session.server.tasks := by
        rcases Session.server_of_next hsession (Bool.eq_false_iff.mpr hl) with
          hsame | ⟨l', hserver, hread, -⟩
        · rw [hsame]
        · exact (SvrConn.next_tasks hserver).1 hread
      exact ⟨htasks.length_le.trans h.alone,
        fun a ha i hi => h.last a ha i (htasks.subset hi), h.sorted⟩

/-- **With `Inline` calls run in the order in which they were sent.** In every run in which the
dispatcher has a request run before it lets the reader go on, whatever becomes of the
responses, the requests are run in the order of the numbers that the client gave them. -/
theorem inline_in_order (halloc : ∀ n, 0 < n → alloc n = true)
    (h : Lts.Reach (next cfg alloc api) Inline (init cfg w₀) s) :
    s.ran.Pairwise fun a b => a.2.seq < b.2.seq := by
  have hone : s.OneByOne := by
    induction h with
    | init => exact ⟨Nat.zero_le 1, fun _ h => absurd h List.not_mem_nil, List.Pairwise.nil⟩
    | step l h hinline hnext ih => exact ih.step (served_of_reach h) hinline hnext
  have hinv := served_of_reach h
  have hdelivers := delivers_of_reach (h.mono fun _ _ => Inline.client)
  have hsorted := (Session.reqs_sorted halloc appendsWhatItReturns_api hdelivers).1
  refine (List.pairwise_map.mp hone.sorted).imp_of_mem fun {a b} ha hb hlt => ?_
  exact RpcSvrReq.seq_lt_of_lt hsorted (hinv.places a ha) (hinv.places b hb) hlt

/-- The same two calls, each run before the next is read. -/
def twoInline : List ApiLabel :=
  twoCounts.take 26 ++ [.serve, .run 0, .serve, .run 1]

/-- They are run as they were sent. -/
theorem inline_in_order_two :
    ∃ s : ApiSession UInt8,
      Lts.Reach (next Sys.apiConfig (fun _ => true) (.service counter)) Inline
        (init Sys.apiConfig 0) s ∧
      s.ran.length = 2 ∧ s.ran.Pairwise fun a b => a.2.seq < b.2.seq := by
  have hrun : (Lts.exec (next Sys.apiConfig (fun _ => true) (.service counter))
      Inline (init Sys.apiConfig 0) twoInline).any
      (fun s => decide (s.ran.length = 2)) = true := by
    decide +kernel
  obtain ⟨s, hreach, htest⟩ := Lts.Reach.exists_of_exec hrun
  have halloc : ∀ n : Int32, 0 < n → (fun _ : Int32 => true) n = true := fun _ _ => rfl
  exact ⟨s, hreach, of_decide_eq_true htest, inline_in_order halloc hreach⟩

end ApiSession

end RazorRpc
