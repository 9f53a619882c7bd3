import RazorRpc.Api
import RazorRpc.TcpServer
import Mathlib.Data.List.TakeWhile
import Mathlib.Logic.Function.Basic

/-!
# The API server (`src/server`, `macros/src/service.rs`, `stream/src/server/server.rs`)

The reader of a connection takes one request after the other and has each answered,
through the channel to the writer (`RespNoti`): pings by itself, calls through the
dispatcher, which finds the service and the method by name and runs the method.

* `Method`, `Service` — what `#[service]` generates; methods work on a state of the
  server and may return anything;
* `ServiceStatic` — a service, or one of the two ways to combine several;
* `Reader.run` — the loop over the requests of a connection;
* `Answer` — what a request is answered with, whoever answers it.

Every level either answers or passes the request on, so that each request gets one
answer: `run_answers`.
-/

namespace RazorRpc

/-- `split_once`: the text before the first `c`, and the text behind it. -/
def splitOnce (c : Char) (s : String) : Option (String × String) :=
  match s.toList.dropWhile (· ≠ c) with
  | [] => none
  | _ :: after => some (String.ofList (s.toList.takeWhile (· ≠ c)), String.ofList after)

/-! ## Channel and request -/

/-- A response, or a quick one: `Err((seq, err))`, with no error for a ping. -/
abbrev RespItem := Except (UInt64 × Option RpcIntErr) APIServerResp

/-- The channel to the writer, which may have hung up. -/
structure RespNoti where
  connected : Bool
  items : List RespItem

/-- The channel after a `send`, and whether it went through. -/
def RespNoti.send (noti : RespNoti) (item : RespItem) : RespNoti × Bool :=
  if noti.connected then ({ noti with items := noti.items ++ [item] }, true) else (noti, false)

/-- What the reader of a connection works on. -/
structure ServerConn (W : Type) where
  noti : RespNoti
  /-- the state of the services -/
  world : W

/-- Work for a request; `none` for a panic. -/
abbrev Handling (W : Type) := StateT (ServerConn W) Option

/-- `APIServerReq`; the codec is applied and the channel is that of the connection. -/
structure APIServerReq where
  seq : UInt64
  service : String
  method : String
  req : Option (List UInt8)

namespace APIServerReq

variable {W : Type}

/-- `noti.done(..)`. -/
def done (resp : APIServerResp) : Handling W Unit := fun s =>
  some ((), { s with noti := (s.noti.send (.ok resp)).1 })

def setResult {R : Type} [Serde R] (req : APIServerReq) (resp : R) : Handling W Unit :=
  match Serde.encode resp with
  | none => done { seq := req.seq, msg := none, res := .error (.rpc .encode) }
  | some msg => done { seq := req.seq, msg := some msg, res := .ok () }

def setRpcError (req : APIServerReq) (e : RpcIntErr) : Handling W Unit :=
  done { seq := req.seq, msg := none, res := .error (.rpc e) }

def setError {E : Type} [RpcErrCodec E] (req : APIServerReq) (e : RpcError E) :
    Handling W Unit :=
  let encodedErr :=
    match e with
    | .rpc rpcIntErr => .rpc rpcIntErr
    | .user userErr => RpcErrCodec.encode userErr
  done { seq := req.seq, msg := none, res := .error encodedErr }

end APIServerReq

/-! ## Services -/

/-- A method of a service. -/
structure Method (W : Type) where
  name : String
  Arg : Type
  Resp : Type
  Err : Type
  [arg : Serde Arg]
  [resp : Serde Resp]
  [err : RpcErrDecode Err]
  /-- the user's code -/
  run : Arg → W → Except (RpcError Err) Resp × W

attribute [instance] Method.arg Method.resp Method.err

/-- An `impl` under `#[service]`. Names are identifiers. -/
structure Service (W : Type) where
  name : String
  methods : List (Method W)
  dotless : '.' ∉ name.toList
  distinct : (methods.map Method.name).Nodup

section

variable {W : Type}

/-- The generated `__handle_` function of a method. -/
def Method.handle (m : Method W) (req : APIServerReq) : Handling W Unit :=
  match req.req with
  -- `unreachable!()`
  | none => failure
  | some buf =>
    match (Serde.decode buf : Option m.Arg) with
    | none => req.setRpcError .decode
    | some arg => fun s =>
      match m.run arg s.world with
      | (.ok resp, world) => req.setResult resp { s with world }
      | (.error e, world) => req.setError e { s with world }

/-- The generated `serve`: it does not look at the name of the service. -/
def Service.serve (s : Service W) (req : APIServerReq) : Handling W Unit :=
  match s.methods.find? (·.name = req.method) with
  | some m => m.handle req
  | none => req.setRpcError .method

/-- `ServiceMuxDyn`: the hash map is a function. -/
structure ServiceMuxDyn (W : Type) where
  map : String → Option (Service W)

namespace ServiceMuxDyn

def new : ServiceMuxDyn W := ⟨fun _ => none⟩

def add (m : ServiceMuxDyn W) (service : Service W) : ServiceMuxDyn W :=
  ⟨Function.update m.map service.name (some service)⟩

def serve (m : ServiceMuxDyn W) (req : APIServerReq) : Handling W Unit :=
  match m.map req.service with
  | some service => service.serve req
  | none => req.setRpcError .service

end ServiceMuxDyn

/-- The `serve` that `service_mux_struct` generates: one arm for each field. -/
def muxStructServe (fields : List (Service W)) (req : APIServerReq) : Handling W Unit :=
  match fields.find? (·.name = req.service) with
  | some service => service.serve req
  | none => req.setRpcError .service

/-- Services with distinct names. -/
structure Services (W : Type) where
  list : List (Service W)
  distinct : (list.map Service.name).Nodup

/-- What a server can be given. -/
inductive ServiceStatic (W : Type) : Type 1 where
  /-- a single `#[service]` -/
  | service (s : Service W)
  /-- a `ServiceMuxDyn` to which these were added -/
  | muxDyn (services : Services W)
  /-- a `service_mux_struct` with these fields -/
  | muxStruct (services : Services W)

def ServiceStatic.serve : ServiceStatic W → APIServerReq → Handling W Unit
  | .service s => s.serve
  | .muxDyn services => (services.list.foldl ServiceMuxDyn.add .new).serve
  | .muxStruct services => muxStructServe services.list

/-! ## Dispatch -/

/-- `APIDispatch<Inline>::dispatch_req`. -/
def dispatchReq (api : ServiceStatic W) (req : RpcSvrReq) : Handling W (Except Unit Unit) :=
  match req.action with
  | .str action =>
    match splitOnce '.' action with
    | some (service, method) => do
      api.serve { seq := req.seq, service, method, req := some req.msg }
      return .ok ()
    | none => return .error ()
  | .num _ => return .error ()

namespace Reader

def sendQuickResp (seq : UInt64) (err : Option RpcIntErr) : Handling W (Except Unit Unit) := fun s =>
  let (noti, sent) := s.noti.send (.error (seq, err))
  some (if sent then .ok () else .error (), { s with noti })

/-- The body of the loop of `Reader::run`. -/
def handle (api : ServiceStatic W) (req : RpcSvrReq) : Handling W (Except Unit Unit) :=
  if req.action = .num 0 ∧ req.msg = [] then sendQuickResp req.seq none
  else do
    match ← dispatchReq api req with
    | .error () => sendQuickResp req.seq (some .decode)
    | .ok () => return .ok ()

/-- `Reader::run`, on these requests, after which `read_req` fails. -/
def run (api : ServiceStatic W) : List RpcSvrReq → Handling W (Except Unit Unit)
  | [] => return .error ()
  | req :: reqs => do
    match ← handle api req with
    | .ok () => run api reqs
    | .error () => return .error ()

end Reader

/-! ## The right answer -/

/-- The request calls this method of this service. -/
def RpcSvrReq.Calls (req : RpcSvrReq) (service method : String) : Prop :=
  req.action = .str (service ++ "." ++ method) ∧ '.' ∉ service.toList

/-- The service that is meant by a name; a single service is meant by every name. -/
def ServiceStatic.Has : ServiceStatic W → String → Service W → Prop
  | .service s, _, s' => s' = s
  | .muxDyn services, name, s | .muxStruct services, name, s => s ∈ services.list ∧ s.name = name

/-- The request is for this method. -/
def ServiceStatic.IsFor (api : ServiceStatic W) (req : RpcSvrReq) (m : Method W) : Prop :=
  ∃ service s, req.Calls service m.name ∧ api.Has service s ∧ m ∈ s.methods

/-- What a request is answered with in the state `w`, and the state afterwards. -/
inductive Answer (api : ServiceStatic W) (req : RpcSvrReq) (w : W) : RespItem → W → Prop
  | ping (haction : req.action = .num 0) (hmsg : req.msg = []) :
      Answer api req w (.error (req.seq, none)) w
  | number {n : Int32} (haction : req.action = .num n) (hping : ¬ (n = 0 ∧ req.msg = [])) :
      Answer api req w (.error (req.seq, some .decode)) w
  | undotted {action : String} (haction : req.action = .str action)
      (hdot : '.' ∉ action.toList) : Answer api req w (.error (req.seq, some .decode)) w
  | noService {service method : String} (hcalls : req.Calls service method)
      (hnone : ∀ s, ¬ api.Has service s) :
      Answer api req w (.ok ⟨req.seq, none, .error (.rpc .service)⟩) w
  | noMethod {service method : String} {s : Service W} (hcalls : req.Calls service method)
      (hhas : api.Has service s) (hnone : ∀ m ∈ s.methods, m.name ≠ method) :
      Answer api req w (.ok ⟨req.seq, none, .error (.rpc .method)⟩) w
  | badArg {m : Method W} (hfor : api.IsFor req m)
      (harg : (Serde.decode req.msg : Option m.Arg) = none) :
      Answer api req w (.ok ⟨req.seq, none, .error (.rpc .decode)⟩) w
  | badResp {m : Method W} {arg : m.Arg} {resp : m.Resp} {w' : W} (hfor : api.IsFor req m)
      (harg : Serde.decode req.msg = some arg) (hrun : m.run arg w = (.ok resp, w'))
      (hmsg : Serde.encode resp = none) :
      Answer api req w (.ok ⟨req.seq, none, .error (.rpc .encode)⟩) w'
  | ok {m : Method W} {arg : m.Arg} {resp : m.Resp} {w' : W} {msg : List UInt8}
      (hfor : api.IsFor req m) (harg : Serde.decode req.msg = some arg)
      (hrun : m.run arg w = (.ok resp, w')) (hmsg : Serde.encode resp = some msg) :
      Answer api req w (.ok ⟨req.seq, some msg, .ok ()⟩) w'
  | rpcErr {m : Method W} {arg : m.Arg} {e : RpcIntErr} {w' : W} (hfor : api.IsFor req m)
      (harg : Serde.decode req.msg = some arg) (hrun : m.run arg w = (.error (.rpc e), w')) :
      Answer api req w (.ok ⟨req.seq, none, .error (.rpc e)⟩) w'
  | userErr {m : Method W} {arg : m.Arg} {e : m.Err} {w' : W} (hfor : api.IsFor req m)
      (harg : Serde.decode req.msg = some arg) (hrun : m.run arg w = (.error (.user e), w')) :
      Answer api req w (.ok ⟨req.seq, none, .error (RpcErrCodec.encode e)⟩) w'

/-- The answers to a sequence of requests, one each, the state threaded through. -/
inductive Answers (api : ServiceStatic W) : List RpcSvrReq → W → List RespItem → W → Prop
  | nil {w : W} : Answers api [] w [] w
  | cons {req : RpcSvrReq} {reqs : List RpcSvrReq} {w w' w'' : W} {item : RespItem}
      {items : List RespItem} (hfirst : Answer api req w item w')
      (hrest : Answers api reqs w' items w'') : Answers api (req :: reqs) w (item :: items) w''

/-- The sequence number an item answers. -/
def RespItem.seq : RespItem → UInt64
  | .ok resp => resp.seq
  | .error (seq, _) => seq

theorem Answer.seq_eq {api : ServiceStatic W} {req : RpcSvrReq} {w w' : W} {item : RespItem}
    (h : Answer api req w item w') : RespItem.seq item = req.seq := by
  cases h <;> rfl

/-- One answer for each request, in their order and with their numbers. -/
theorem Answers.seqs_eq {api : ServiceStatic W} {reqs : List RpcSvrReq} {w w' : W}
    {items : List RespItem} (h : Answers api reqs w items w') :
    items.map RespItem.seq = reqs.map RpcSvrReq.seq := by
  induction h with
  | nil => rfl
  | cons hfirst _ ih => rw [List.map_cons, List.map_cons, hfirst.seq_eq, ih]

/-! ## Each level answers or passes on -/

/-- Without a separator nothing is parted. -/
theorem splitOnce_eq_none {c : Char} {s : String} (h : splitOnce c s = none) : c ∉ s.toList := by
  intro hmem
  rw [splitOnce] at h
  split at h
  · rename_i hnil
    have := List.dropWhile_eq_nil_iff.mp hnil c hmem
    simp at this
  · cases h

/-- The first separator parts a text. -/
theorem splitOnce_eq_some {c : Char} {s before after : String}
    (h : splitOnce c s = some (before, after)) :
    s = before ++ String.singleton c ++ after ∧ c ∉ before.toList := by
  rw [splitOnce] at h
  split at h
  · cases h
  · rename_i x rest hdrop
    obtain ⟨rfl, rfl⟩ := Prod.mk.inj (Option.some.inj h)
    have hx : x = c := by
      have hhead := List.head?_dropWhile_not (· ≠ c) s.toList
      rw [hdrop] at hhead
      simpa using hhead
    refine ⟨String.toList_inj.mp ?_, ?_⟩
    · have happend : s.toList.takeWhile (· ≠ c) ++ s.toList.dropWhile (· ≠ c) = s.toList :=
        List.takeWhile_append_dropWhile
      rw [hdrop, hx] at happend
      rw [String.toList_append, String.toList_append, String.toList_ofList, String.toList_ofList,
        String.toList_singleton, List.append_assoc]
      exact happend.symm
    · rw [String.toList_ofList]
      intro hmem
      have := List.mem_takeWhile_imp hmem
      simp at this

/-- Two texts around a separator are parted there, if the first has none. -/
theorem splitOnce_append {c : Char} {before : String} (h : c ∉ before.toList) (after : String) :
    splitOnce c (before ++ String.singleton c ++ after) = some (before, after) := by
  have hall : ∀ x ∈ before.toList, decide (x ≠ c) = true := fun x hx =>
    decide_eq_true fun heq => h (heq ▸ hx)
  have hlist : (before ++ String.singleton c ++ after).toList =
      before.toList ++ c :: after.toList := by simp
  have hdrop : (before ++ String.singleton c ++ after).toList.dropWhile (· ≠ c) =
      c :: after.toList := by
    rw [hlist, List.dropWhile_append_of_pos hall]
    simp
  have htake : (before ++ String.singleton c ++ after).toList.takeWhile (· ≠ c) =
      before.toList := by
    rw [hlist, List.takeWhile_append_of_pos hall]
    simp
  simp only [splitOnce, hdrop, htake, String.ofList_toList]

/-- The state after one item was sent and the services moved on. -/
def ServerConn.after (s : ServerConn W) (item : RespItem) (world : W) : ServerConn W where
  noti := (s.noti.send item).1
  world := world

/-- A method that is found answers. -/
theorem Method.handle_answer {api : ServiceStatic W} {req : RpcSvrReq} {m : Method W}
    (hfor : api.IsFor req m) (service method : String) (s : ServerConn W) :
    ∃ item w', m.handle ⟨req.seq, service, method, some req.msg⟩ s = some ((), s.after item w') ∧
      Answer api req s.world item w' := by
  rcases harg : (Serde.decode req.msg : Option m.Arg) with _ | arg
  · refine ⟨_, _, ?_, .badArg hfor harg⟩
    simp only [Method.handle, harg]
    rfl
  · rcases hrun : m.run arg s.world with ⟨⟨e | e⟩ | resp, w'⟩
    · refine ⟨_, _, ?_, .userErr hfor harg hrun⟩
      simp only [Method.handle, harg, hrun]
      rfl
    · refine ⟨_, _, ?_, .rpcErr hfor harg hrun⟩
      simp only [Method.handle, harg, hrun]
      rfl
    · rcases hmsg : Serde.encode resp with _ | msg
      · refine ⟨_, _, ?_, .badResp hfor harg hrun hmsg⟩
        simp only [Method.handle, harg, hrun, APIServerReq.setResult, hmsg]
        rfl
      · refine ⟨_, _, ?_, .ok hfor harg hrun hmsg⟩
        simp only [Method.handle, harg, hrun, APIServerReq.setResult, hmsg]
        rfl

/-- A service that is found answers. -/
theorem Service.serve_answer (api : ServiceStatic W) {req : RpcSvrReq} {service method : String}
    {svc : Service W} (hcalls : req.Calls service method) (hhas : api.Has service svc)
    (s : ServerConn W) :
    ∃ item w', svc.serve ⟨req.seq, service, method, some req.msg⟩ s = some ((), s.after item w') ∧
      Answer api req s.world item w' := by
  rcases hfind : svc.methods.find? (·.name = method) with _ | m
  · refine ⟨_, _, ?_, .noMethod hcalls hhas fun m hm hname => ?_⟩
    · simp only [Service.serve, hfind]
      rfl
    · exact List.find?_eq_none.mp hfind m hm (decide_eq_true hname)
  · have hname : m.name = method := by simpa using List.find?_some hfind
    simp only [Service.serve, hfind]
    exact m.handle_answer ⟨service, svc, hname ▸ hcalls, hhas, List.mem_of_find?_eq_some hfind⟩
      service method s

/-- What the map of a dynamic mux holds. -/
theorem ServiceMuxDyn.foldl_add {services : List (Service W)}
    (hdistinct : (services.map Service.name).Nodup) (m : ServiceMuxDyn W) (name : String) :
    (services.foldl add m).map name = (services.find? (·.name = name)).or (m.map name) := by
  induction services generalizing m with
  | nil => rfl
  | cons service services ih =>
    rw [List.map_cons, List.nodup_cons] at hdistinct
    rw [List.foldl_cons, ih hdistinct.2, List.find?_cons]
    by_cases hname : service.name = name
    · -- the name is not used again, so the entry stays
      have hnone : services.find? (·.name = name) = none :=
        List.find?_eq_none.mpr fun s hs hs' =>
          hdistinct.1 (List.mem_map.mpr ⟨s, hs, (of_decide_eq_true hs').trans hname.symm⟩)
      simp [hnone, add, hname]
    · simp [add, hname, Function.update_of_ne (Ne.symm hname)]

/-- Both kinds of mux look a service up by its name. -/
theorem Services.lookup_answer (api : ServiceStatic W) {services : Services W}
    (hhas : ∀ name svc, api.Has name svc ↔ svc ∈ services.list ∧ svc.name = name)
    {req : RpcSvrReq} {service method : String} (hcalls : req.Calls service method)
    (s : ServerConn W) :
    ∃ item w', muxStructServe services.list ⟨req.seq, service, method, some req.msg⟩ s =
        some ((), s.after item w') ∧ Answer api req s.world item w' := by
  rcases hfind : services.list.find? (·.name = service) with _ | svc
  · refine ⟨_, _, ?_, .noService hcalls fun svc hsvc => ?_⟩
    · simp only [muxStructServe, hfind]
      rfl
    · obtain ⟨hmem, hname⟩ := (hhas service svc).mp hsvc
      exact List.find?_eq_none.mp hfind svc hmem (decide_eq_true hname)
  · have hname : svc.name = service := by simpa using List.find?_some hfind
    simp only [muxStructServe, hfind]
    exact svc.serve_answer api hcalls ((hhas service svc).mpr ⟨List.mem_of_find?_eq_some hfind, hname⟩) s

/-- The two muxes agree. -/
theorem serve_muxDyn_eq (services : Services W) :
    (services.list.foldl ServiceMuxDyn.add .new).serve = muxStructServe services.list := by
  funext req
  rw [ServiceMuxDyn.serve, ServiceMuxDyn.foldl_add services.distinct, ServiceMuxDyn.new,
    Option.or_none]
  rfl

theorem ServiceStatic.serve_answer (api : ServiceStatic W) {req : RpcSvrReq}
    {service method : String} (hcalls : req.Calls service method) (s : ServerConn W) :
    ∃ item w', api.serve ⟨req.seq, service, method, some req.msg⟩ s =
        some ((), s.after item w') ∧ Answer api req s.world item w' := by
  cases api with
  | service svc => exact svc.serve_answer (.service svc) hcalls rfl s
  | muxDyn services =>
    rw [ServiceStatic.serve, serve_muxDyn_eq]
    exact Services.lookup_answer (.muxDyn services) (fun _ _ => Iff.rfl) hcalls s
  | muxStruct services =>
    exact Services.lookup_answer (.muxStruct services) (fun _ _ => Iff.rfl) hcalls s

/-! ## The reader -/

/-- Sequencing after work that does not panic. -/
theorem Handling.bind_some {α β : Type} {m : Handling W α} {f : α → Handling W β}
    {s s' : ServerConn W} {a : α} (h : m s = some (a, s')) : (m >>= f) s = f a s' := by
  change (m s).bind (fun p => f p.1 p.2) = f a s'
  rw [h]
  rfl

/-- A quick response is sent; the reader goes on as long as the writer listens. -/
theorem Reader.sendQuickResp_eq (seq : UInt64) (err : Option RpcIntErr) (s : ServerConn W) :
    sendQuickResp seq err s = some (if s.noti.connected then .ok () else .error (),
      s.after (.error (seq, err)) s.world) := by
  simp only [sendQuickResp, RespNoti.send, ServerConn.after]
  split <;> rfl

/-- The dispatcher answers, or leaves the request to the reader. -/
theorem dispatchReq_answer (api : ServiceStatic W) (req : RpcSvrReq) (s : ServerConn W) :
    (∃ item w', dispatchReq api req s = some (.ok (), s.after item w') ∧
        Answer api req s.world item w') ∨
      dispatchReq api req s = some (.error (), s) ∧
        (¬ (req.action = .num 0 ∧ req.msg = []) →
          Answer api req s.world (.error (req.seq, some .decode)) s.world) := by
  rcases haction : req.action with action | n
  · rcases hsplit : splitOnce '.' action with _ | ⟨service, method⟩
    · refine Or.inr ⟨?_, fun _ => .undotted haction (splitOnce_eq_none hsplit)⟩
      simp only [dispatchReq, haction, hsplit]
      rfl
    · obtain ⟨hparts, hdot⟩ := splitOnce_eq_some hsplit
      have hcalls : req.Calls service method :=
        ⟨haction.trans (congrArg RpcAction.str hparts), hdot⟩
      obtain ⟨item, w', hserve, hanswer⟩ := api.serve_answer hcalls s
      refine Or.inl ⟨item, w', ?_, hanswer⟩
      simp only [dispatchReq, haction, hsplit]
      rw [Handling.bind_some hserve]
      rfl
  · refine Or.inr ⟨?_, fun hping => .number haction fun h => hping ⟨congrArg RpcAction.num h.1, h.2⟩⟩
    simp only [dispatchReq, haction]
    rfl

namespace Reader

/-- One request, one answer. -/
theorem handle_answer (api : ServiceStatic W) (req : RpcSvrReq) (s : ServerConn W) :
    ∃ r item w', handle api req s = some (r, s.after item w') ∧
      Answer api req s.world item w' ∧ (s.noti.connected = true → r = .ok ()) := by
  by_cases hping : req.action = .num 0 ∧ req.msg = []
  · refine ⟨if s.noti.connected then .ok () else .error (), _, _, ?_, .ping hping.1 hping.2,
      fun hconn => if_pos hconn⟩
    rw [handle, if_pos hping, sendQuickResp_eq]
  · rw [handle, if_neg hping]
    rcases dispatchReq_answer api req s with ⟨item, w', hdispatch, hanswer⟩ | ⟨hdispatch, hanswer⟩
    · refine ⟨.ok (), item, w', ?_, hanswer, fun _ => rfl⟩
      rw [Handling.bind_some hdispatch]
      rfl
    · refine ⟨if s.noti.connected then .ok () else .error (), _, _, ?_, hanswer hping,
        fun hconn => if_pos hconn⟩
      rw [Handling.bind_some hdispatch]
      exact sendQuickResp_eq req.seq (some .decode) s

/-- **One answer for each request.** On every sequence of requests the reader runs
without a panic. While the writer listens, it puts one item for each request on the
channel, in their order and with their sequence numbers, and each is the right answer
in the state that the requests before it have left; once the writer has hung up nothing
is put there. -/
theorem run_answers (api : ServiceStatic W) (reqs : List RpcSvrReq) (s : ServerConn W) :
    ∃ r s', run api reqs s = some (r, s') ∧
      (s.noti.connected = true → ∃ items, s'.noti.items = s.noti.items ++ items ∧
        items.map RespItem.seq = reqs.map RpcSvrReq.seq ∧
        Answers api reqs s.world items s'.world) ∧
      (s.noti.connected = false → s'.noti.items = s.noti.items) := by
  induction reqs generalizing s with
  | nil => exact ⟨_, s, rfl, fun _ => ⟨[], (List.append_nil _).symm, rfl, .nil⟩, fun _ => rfl⟩
  | cons req reqs ih =>
    obtain ⟨r, item, w', hhandle, hanswer, hok⟩ := handle_answer api req s
    rw [run, Handling.bind_some hhandle]
    rcases hconn : s.noti.connected with _ | _
    · -- the writer has hung up: the channel stays as it is
      have hsame : (s.after item w').noti = s.noti := by
        simp [ServerConn.after, RespNoti.send, hconn]
      cases r with
      | error e => exact ⟨_, _, rfl, nofun, fun _ => by rw [hsame]⟩
      | ok u =>
        obtain ⟨r', s', hrun, -, hgone⟩ := ih (s.after item w')
        rw [hsame] at hgone
        exact ⟨r', s', hrun, nofun, fun _ => hgone hconn⟩
    · have hnoti : (s.after item w').noti = { s.noti with items := s.noti.items ++ [item] } := by
        simp [ServerConn.after, RespNoti.send, hconn]
      rw [hok hconn]
      obtain ⟨r', s', hrun, hconnected, -⟩ := ih (s.after item w')
      rw [hnoti] at hconnected
      obtain ⟨items, hitems, -, hanswers⟩ := hconnected hconn
      have hall := Answers.cons hanswer hanswers
      refine ⟨r', s', hrun, fun _ => ⟨item :: items, ?_, hall.seqs_eq, hall⟩, nofun⟩
      rw [hitems, List.append_assoc]
      rfl

end Reader

end

end RazorRpc
