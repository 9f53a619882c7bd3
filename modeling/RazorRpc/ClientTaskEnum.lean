import RazorRpc.ReqStream
import RazorRpc.ServerTaskEnum
import Mathlib.Data.List.Nodup

/-!
# Task enums of a client (`stream/macros/src/client_task_enum.rs`)

`#[client_task_enum(error = ..)]` makes a client task of an enum whose variants each hold
one: every method passes on to the task inside, except that a variant may have an action of
its own. The action is where the two ends meet, and the two macros read `#[action]` by
different rules: here a literal is put into the code as it stands, only the first argument
counts, and an enum variant may be followed by others that nobody looks at.

* `expand` — the macro;
* `EnumTask` — a value of the enum, a client task by the code that is generated;
* `EnumVariant.actionFor` — the action of a variant, from the definition alone.

The result is `task_enums_agree`, which goes from a variant of the client's enum over the wire
to a variant of the server's.
-/

namespace RazorRpc

namespace ClientTaskEnum

open ServerTaskEnum (ActionExpr bind_eq_ok)

/-! ## Definitions -/

/-- An argument of `#[action(..)]`. -/
inductive NestedMeta : Type where
  | litStr (s : String)
  | litInt (v : ℤ)
  /-- any other literal -/
  | litOther
  /-- an enum variant, by its path -/
  | path (p : String)
  /-- any other item -/
  | item

/-- A variant of the enum. -/
structure EnumVariant where
  ident : String
  /-- the type of its field, as the macro prints it; `none` unless it is a tuple with one -/
  field : Option String
  /-- its `#[action]` attributes with their arguments; `none` where there is no list -/
  actionAttrs : List (Option (List NestedMeta))

/-- An enum; its variants have different names. -/
structure EnumDef where
  ident : String
  variants : List EnumVariant
  nodup : (variants.map EnumVariant.ident).Nodup

/-! ## The macro -/

/-- The code that is generated for a variant: `From` for its type, the arm of `get_action`, and
in every other `match` the arm that passes on to the task inside. -/
structure Arm where
  ident : String
  ty : String
  action : ActionExpr

/-- `get_action_attribute`: a literal, alone, or a path, with whatever follows it. -/
def getActionAttribute : List (Option (List NestedMeta)) → Except String (Option NestedMeta)
  | [] => .ok none
  | some (.path p :: _) :: _ => .ok (some (.path p))
  | some (.item :: _) :: attrs | some [] :: attrs | none :: attrs => getActionAttribute attrs
  | some (lit :: more) :: _ =>
    if more.isEmpty then .ok (some lit) else .error "Only one action is allowed per variant"

/-- What `get_action` returns for a variant. -/
def actionExpr : Option NestedMeta → Except String ActionExpr
  | some (.litInt v) =>
    -- the literal is a constant of type `i32`
    if -2 ^ 31 ≤ v ∧ v < 2 ^ 31 then .ok (.num (Int32.ofInt v))
    else .error "literal out of range for i32"
  | some (.litStr s) => .ok (.str s)
  | some (.path p) => .ok (.path p)
  | some .litOther | some .item => .error "Unsupported action type"
  | none => .ok .inner

/-- The body of the loop over the variants; `seen` are the types of those before. -/
def variantArm (enumName : String) (seen : List String) (v : EnumVariant) : Except String Arm :=
  match v.field with
  | none => .error "Enum variants must be tuple-style with a single field"
  | some ty =>
    if ty ∈ seen then
      .error ("Duplicate sub-type `" ++ ty ++ "` found in enum `" ++ enumName ++
        "`. `From` implementation cannot be generated for duplicate sub-types.")
    else do
      let action ← getActionAttribute v.actionAttrs
      let expr ← actionExpr action
      return ⟨v.ident, ty, expr⟩

def variantArms (enumName : String) : List String → List EnumVariant → Except String (List Arm)
  | _, [] => .ok []
  | seen, v :: vs => do
    let arm ← variantArm enumName seen v
    let arms ← variantArms enumName (arm.ty :: seen) vs
    return arm :: arms

/-- `client_task_enum_impl`; `error` is the type given for `error = ..`. -/
def expand (error : Option String) (d : EnumDef) : Except String (List Arm) :=
  match error with
  | none => .error "#[client_task_enum] requires an `error = <Type>` attribute"
  | some _ => variantArms d.ident [] d.variants

/-! ## The code it writes -/

/-- A value of the enum: one of its variants, and the task in it. -/
structure EnumTask (asI32 : String → Int32) (arms : List Arm) (B : Type) where
  arm : Arm
  mem : arm ∈ arms
  inner : B

section Run

variable {B : Type} [ClientTask B] {asI32 : String → Int32} {arms : List Arm}

/-- The right side of an arm of `get_action`; `asI32` are the casts `p as i32`. -/
def evalAction (asI32 : String → Int32) (inner : B) : ActionExpr → RpcAction
  | .str s => .str s
  | .num n => .num n
  | .path p => .num (asI32 p)
  | .inner => ClientTask.getAction inner

/-- Every method passes on to the task inside, but for the action. -/
instance : ClientTask (EnumTask asI32 arms B) where
  getAction t := evalAction asI32 t.inner t.arm.action
  encodeReq t := ClientTask.encodeReq t.inner
  getReqBlob t := ClientTask.getReqBlob t.inner
  decodeResp t bs :=
    ({ t with inner := (ClientTask.decodeResp t.inner bs).1 }, (ClientTask.decodeResp t.inner bs).2)
  reserveRespBlob t size :=
    ({ t with inner := (ClientTask.reserveRespBlob t.inner size).1 },
      (ClientTask.reserveRespBlob t.inner size).2)
  fillRespBlob t bs := { t with inner := ClientTask.fillRespBlob t.inner bs }
  setCustomError t e lastIndex confVer :=
    { t with inner := ClientTask.setCustomError t.inner e lastIndex confVer }
  setRpcError t e := { t with inner := ClientTask.setRpcError t.inner e }
  setOk t := { t with inner := ClientTask.setOk t.inner }

omit [ClientTask B] in
/-- `From` for the type of a task: the variant it goes into. -/
def EnumTask.from? (asI32 : String → Int32) (arms : List Arm) (ty : String) (inner : B) :
    Option (EnumTask asI32 arms B) :=
  match h : arms.find? (·.ty = ty) with
  | some arm => some ⟨arm, List.mem_of_find?_eq_some h, inner⟩
  | none => none

end Run

/-! ## What a variant says -/

/-- The action that an argument of `#[action]` stands for. -/
def NestedMeta.action (asI32 : String → Int32) : NestedMeta → Option RpcAction
  | litStr s => some (.str s)
  | litInt v => some (.num (Int32.ofInt v))
  | path p => some (.num (asI32 p))
  | litOther | item => none

/-- At most one attribute, with one literal or path, as the documentation asks for. -/
def EnumVariant.OneAction (v : EnumVariant) : Prop :=
  v.actionAttrs = [] ∨ ∃ action, action ≠ .item ∧ v.actionAttrs = [some [action]]

/-- The action of a variant whose task has the action `inner`. -/
def EnumVariant.actionFor (asI32 : String → Int32) (inner : RpcAction) (v : EnumVariant) :
    Option RpcAction :=
  match v.actionAttrs with
  | [some [action]] => action.action asI32
  | _ => some inner

/-! ## Arms and variants -/

/-- The arm of a variant that was accepted. -/
structure ArmOf (v : EnumVariant) (arm : Arm) : Prop where
  ident : arm.ident = v.ident
  field : v.field = some arm.ty
  action : ∃ action, getActionAttribute v.actionAttrs = .ok action ∧
    actionExpr action = .ok arm.action

theorem variantArm_eq_ok {enumName : String} {seen : List String} {v : EnumVariant} {arm : Arm}
    (h : variantArm enumName seen v = .ok arm) : ArmOf v arm ∧ arm.ty ∉ seen := by
  rw [variantArm] at h
  split at h
  · cases h
  · rename_i ty hfield
    split at h
    · cases h
    · rename_i hseen
      obtain ⟨action, hattr, h⟩ := bind_eq_ok.mp h
      obtain ⟨expr, hexpr, h⟩ := bind_eq_ok.mp h
      cases h
      exact ⟨⟨rfl, hfield, action, hattr, hexpr⟩, hseen⟩

/-- One arm for each variant, and no type twice. -/
theorem variantArms_eq_ok {enumName : String} {seen : List String} {vs : List EnumVariant}
    {arms : List Arm} (h : variantArms enumName seen vs = .ok arms) :
    List.Forall₂ ArmOf vs arms ∧ (arms.map Arm.ty).Nodup ∧ ∀ arm ∈ arms, arm.ty ∉ seen := by
  induction vs generalizing seen arms with
  | nil =>
    cases h
    exact ⟨.nil, List.nodup_nil, List.forall_mem_nil _⟩
  | cons v vs ih =>
    obtain ⟨arm, harm, h⟩ := bind_eq_ok.mp h
    obtain ⟨rest, hrest, h⟩ := bind_eq_ok.mp h
    cases h
    obtain ⟨harmOf, hseen⟩ := variantArm_eq_ok harm
    obtain ⟨hall, hnodup, hfresh⟩ := ih hrest
    refine ⟨.cons harmOf hall, List.nodup_cons.mpr ⟨?_, hnodup⟩, ?_⟩
    · intro hmem
      obtain ⟨arm', hmem, hty⟩ := List.mem_map.mp hmem
      exact hfresh arm' hmem (hty ▸ List.mem_cons_self)
    · refine List.forall_mem_cons.mpr ⟨hseen, fun arm' hmem hin => ?_⟩
      exact hfresh arm' hmem (List.mem_cons_of_mem _ hin)

theorem expand_eq_ok {error : Option String} {d : EnumDef} {arms : List Arm}
    (h : expand error d = .ok arms) :
    List.Forall₂ ArmOf d.variants arms ∧ (arms.map Arm.ty).Nodup := by
  cases error with
  | none => cases h
  | some e =>
    obtain ⟨hall, hnodup, -⟩ := variantArms_eq_ok h
    exact ⟨hall, hnodup⟩

/-- Every arm is that of a variant. -/
theorem exists_variant {vs : List EnumVariant} {arms : List Arm} (h : List.Forall₂ ArmOf vs arms)
    {arm : Arm} (harm : arm ∈ arms) : ∃ v ∈ vs, ArmOf v arm := by
  induction h with
  | nil => cases harm
  | @cons v arm' vs arms harmOf _ ih =>
    rcases List.mem_cons.mp harm with rfl | harm
    · exact ⟨v, List.mem_cons_self, harmOf⟩
    · obtain ⟨v', hv', hof⟩ := ih harm
      exact ⟨v', List.mem_cons_of_mem _ hv', hof⟩

section

variable {B : Type} [ClientTask B] {asI32 : String → Int32} {arms : List Arm}

/-- What the generated code returns is what the variant says. -/
theorem ArmOf.actionFor {v : EnumVariant} {arm : Arm} (h : ArmOf v arm) (hone : v.OneAction)
    (inner : B) :
    v.actionFor asI32 (ClientTask.getAction inner) = some (evalAction asI32 inner arm.action) := by
  obtain ⟨action, hattr, hexpr⟩ := h.action
  rcases hone with hnone | ⟨only, hitem, hsome⟩
  · rw [hnone] at hattr
    cases hattr
    rw [EnumVariant.actionFor, hnone]
    have hinner : arm.action = .inner := (Except.ok.inj hexpr).symm
    rw [hinner]
    rfl
  · rw [hsome] at hattr
    rw [EnumVariant.actionFor, hsome]
    cases only with
    | litStr s =>
      cases hattr
      have hstr : arm.action = .str s := (Except.ok.inj hexpr).symm
      rw [hstr]
      rfl
    | litInt v =>
      cases hattr
      rw [actionExpr] at hexpr
      split at hexpr
      · have hnum : arm.action = .num (Int32.ofInt v) := (Except.ok.inj hexpr).symm
        rw [hnum]
        rfl
      · cases hexpr
    | litOther =>
      cases hattr
      cases hexpr
    | path p =>
      cases hattr
      have hpath : arm.action = .path p := (Except.ok.inj hexpr).symm
      rw [hpath]
      rfl
    | item => exact absurd rfl hitem

omit [ClientTask B] in
/-- A task goes back into the variant it came from. -/
theorem from?_ty (hnodup : (arms.map Arm.ty).Nodup) (t : EnumTask asI32 arms B) (inner : B) :
    EnumTask.from? asI32 arms t.arm.ty inner = some { t with inner } := by
  rw [EnumTask.from?]
  split
  · rename_i arm hfind
    have hty : arm.ty = t.arm.ty := by simpa using List.find?_some hfind
    have hmem := List.mem_of_find?_eq_some hfind
    have hsame := List.inj_on_of_nodup_map hnodup hmem t.mem hty
    subst hsame
    rfl
  · rename_i hnone
    have hno := List.find?_eq_none.mp hnone t.arm t.mem
    exact absurd (decide_eq_true rfl) hno

end

/-! ## The server's side -/

end ClientTaskEnum

namespace ServerTaskEnum

variable {M P E N : Type}

def InnerTask.seq : InnerTask M P E N → UInt64
  | variant t => t.seq
  | full t => t.seq

def InnerTask.msg : InnerTask M P E N → M
  | variant t => t.msg
  | full t => t.req

/-- A request whose message decodes becomes a task with its number and message. -/
theorem InnerType.exists_decodeReq {decode : InnerType → List UInt8 → Except Unit M}
    {inner : InnerType} {r : Req N} {m : M} (h : decode inner r.msg = .ok m) :
    ∃ t : InnerTask M P E N, inner.decodeReq decode r = .ok t ∧ t.seq = r.seq ∧ t.msg = m := by
  rw [InnerType.decodeReq]
  split
  · rw [Variant.decodeReq, h]
    exact ⟨_, rfl, rfl, rfl⟩
  · rw [VariantFull.decodeReq, h]
    exact ⟨_, rfl, rfl, rfl⟩

/-- The first variant that lists the action of a request decodes it, and reports it. -/
theorem exists_decodeReq {attrs : ServerTaskEnumAttrs} (hreq : attrs.req = true) {e : EnumDef}
    (hone : ∀ v ∈ e.variants, ∃ actions, v.actionAttrs = [some actions]) {g : Generated}
    (h : expand attrs e = .ok g) {asI32 : String → Int32}
    {decode : InnerType → List UInt8 → Except Unit M} {r : Req N} {w : EnumVariant}
    (hw : e.variants.find? (·.lists asI32 r.action) = some w) {inner : InnerType}
    (hinner : w.field = some inner) {m : M} (hm : decode inner r.msg = .ok m) :
    ∃ task : EnumTask M P E N, g.decodeReq asI32 decode r = .ok task ∧ task.variant = w.ident ∧
      task.task.seq = r.seq ∧ task.task.msg = m ∧ g.getAction asI32 task = some r.action := by
  obtain ⟨types, -, h⟩ := bind_eq_ok.mp h
  obtain ⟨-, -, h⟩ := bind_eq_ok.mp h
  obtain ⟨arms, harms, h⟩ := bind_eq_ok.mp h
  cases h
  replace harms := (mapM_eq_ok harms).imp fun v r h => variantArms_eq_ok hreq h
  rcases find?_decodeArms harms hone asI32 r.action with
    ⟨hnone, -⟩ | ⟨v, pat, inner', hsome, hfield, hfind⟩
  · cases hnone.symm.trans hw
  · cases hsome.symm.trans hw
    cases hfield.symm.trans hinner
    obtain ⟨t, ht, hseq, hmsg⟩ := InnerType.exists_decodeReq (P := P) (E := E) hm
    obtain ⟨actions, hattr⟩ := hone w (List.mem_of_find?_eq_some hw)
    obtain ⟨expr, hget, hexpr⟩ :=
      find?_getActionArms harms e.nodup (List.mem_of_find?_eq_some hw)
    refine ⟨⟨w.ident, t⟩, ?_, rfl, hseq, hmsg, ?_⟩
    · simp only [Generated.decodeReq, hfind, ht]
      rfl
    · rw [Generated.getAction, hget]
      refine congrArg some (eval_actionExpr hexpr ?_ (InnerType.getAction_of_decodeReq ht))
      exact (lists_iff hattr).mp (List.find?_some hw)

end ServerTaskEnum

namespace ClientTaskEnum

open Bytes TcpServer

/-- **Task enums of the two ends agree.** For every enum that the client's macro accepts, with
at most one action for a variant, and every enum that the server's macro accepts: a task goes
out with the action that its variant says, its own if there is none; the server reads the
request that the task inside encoded, whatever follows it; the first variant of the server's
enum that lists the action decodes it, and reports this action. And the task, when it is
done, goes back into the variant it came from. -/
theorem task_enums_agree {B M P E N : Type} [ClientTask B] {error : Option String} {d : EnumDef}
    {arms : List Arm} (hclient : expand error d = .ok arms)
    (hone : ∀ v ∈ d.variants, v.OneAction) {attrs : ServerTaskEnum.ServerTaskEnumAttrs}
    (hreq : attrs.req = true) {e : ServerTaskEnum.EnumDef}
    (hone' : ∀ v ∈ e.variants, ∃ actions, v.actionAttrs = [some actions])
    {g : ServerTaskEnum.Generated} (hserver : ServerTaskEnum.expand attrs e = .ok g)
    (asI32 asI32' : String → Int32)
    (decode : ServerTaskEnum.InnerType → List UInt8 → Except Unit M) {alloc : Int32 → Bool}
    (halloc : ∀ n, 0 < n → alloc n = true) (hwritten : AppendsWhatItReturns B)
    (t : Task (EnumTask asI32 arms B)) (henc : ReqHead.Encodes t.body)
    (hdom : (ClientTask.getAction t.body).InDomain) (clientId : UInt64)
    (buf : HeadedBuf rpcReqHeaderLen) (rest : List UInt8) (noti : N) :
    ∃ v ∈ d.variants, v.ident = t.body.arm.ident ∧ ∃ req : RpcSvrReq,
      v.actionFor asI32 (ClientTask.getAction t.body.inner) = some req.action ∧
      req.msg = (ClientTask.encodeReq t.body.inner).bytes ∧
      readReq alloc (((ClientOp.task t).write clientId buf).2 ++ rest) = .ok (req, rest) ∧
      (∀ w ∈ e.variants.find? (·.lists asI32' req.action), ∀ inner ∈ w.field,
        ∀ m, decode inner req.msg = .ok m →
          ∃ task : ServerTaskEnum.EnumTask M P E N,
            g.decodeReq asI32' decode ⟨req.action, req.seq, req.msg, req.blob, noti⟩ = .ok task ∧
            (task.variant = w.ident ∧ task.task.seq = t.seq ∧ task.task.msg = m) ∧
            g.getAction asI32' task = some req.action) ∧
      ∀ inner : B, EnumTask.from? asI32 arms t.body.arm.ty inner = some { t.body with inner } := by
  obtain ⟨hall, hnodup⟩ := expand_eq_ok hclient
  obtain ⟨v, hv, harm⟩ := exists_variant hall t.body.mem
  have hwritten' : AppendsWhatItReturns (EnumTask asI32 arms B) := fun t => hwritten t.inner
  obtain ⟨req, hrequest, hread⟩ :=
    readReq_writeTask halloc hwritten' clientId buf henc hdom rest
  have hreqIs : req = ⟨t.seq, ClientTask.getAction t.body, (ClientTask.encodeReq t.body).bytes,
      req.blob⟩ := by
    rw [ClientOp.request?, if_pos henc] at hrequest
    cases hrequest
    rfl
  have hseq : req.seq = t.seq := by rw [hreqIs]
  have haction : req.action = ClientTask.getAction t.body := by rw [hreqIs]
  have hmsg : req.msg = (ClientTask.encodeReq t.body.inner).bytes := by
    rw [hreqIs]
    rfl
  refine ⟨v, hv, harm.ident.symm, req, ?_, hmsg, hread, ?_, from?_ty hnodup t.body⟩
  · rw [haction]
    exact harm.actionFor (hone v hv) t.body.inner
  · intro w hw inner hinner m hm
    obtain ⟨task, hdecode, hvariant, hnumber, hmessage, hget⟩ :=
      ServerTaskEnum.exists_decodeReq (P := P) (E := E) hreq hone' hserver
        (r := ⟨req.action, req.seq, req.msg, req.blob, noti⟩) hw hinner hm
    exact ⟨task, hdecode, ⟨hvariant, hnumber.trans hseq, hmessage⟩, hget⟩

/-- Two variants; the second has the action of its task. -/
def fileTask : EnumDef where
  ident := "FileTask"
  variants :=
    [⟨"Open", some "FileOpenTask", [some [.litInt 1]]⟩, ⟨"Close", some "FileCloseTask", []⟩]
  nodup := by decide

/-- One variant for two actions. -/
def fileServerTask : ServerTaskEnum.EnumDef where
  ident := "FileServerTask"
  variants := [⟨"OpenOrRead", some ⟨.variant, "ServerTaskVariant < Resp , FileReq , Errno >"⟩,
    [some [.litInt 1, .litInt 2]]⟩]
  nodup := by decide

/-- `#[server_task_enum(req, resp_type = Resp, error = Errno)]`. -/
def fileServerAttrs : ServerTaskEnum.ServerTaskEnumAttrs :=
  { req := true, resp := false, respType := some "Resp", error := "Errno" }

/-- A task of the first variant arrives. -/
theorem task_enums_agree_open :
    ∃ (arms : List Arm) (g : ServerTaskEnum.Generated)
      (t : Task (EnumTask (fun _ => 0) arms APIClientReq)) (req : RpcSvrReq)
      (task : ServerTaskEnum.EnumTask Unit Unit Unit Unit),
      expand (some "Errno") fileTask = .ok arms ∧
      ServerTaskEnum.expand fileServerAttrs fileServerTask = .ok g ∧
      readReq (fun _ => true)
        ((ClientOp.task t).write 9 (.withCapacity rpcReqHeaderLen 0)).2 = .ok (req, []) ∧
      g.decodeReq (fun _ => 0) (fun _ _ => .ok ())
        (⟨req.action, req.seq, req.msg, req.blob, ()⟩ : ServerTaskEnum.Req Unit) = .ok task ∧
      task.variant = "OpenOrRead" ∧ g.getAction (fun _ => 0) task = some (.num 1) := by
  let openArm : Arm := ⟨"Open", "FileOpenTask", .num 1⟩
  let arms : List Arm := [openArm, ⟨"Close", "FileCloseTask", .inner⟩]
  let t : Task (EnumTask (fun _ => 0) arms APIClientReq) :=
    ⟨0, 5, ⟨openArm, List.mem_cons_self, .new "unused" [146, 1]⟩⟩
  have hone : ∀ v ∈ fileTask.variants, v.OneAction := by
    refine List.forall_mem_cons.mpr ⟨Or.inr ⟨.litInt 1, by rintro ⟨⟩, rfl⟩, ?_⟩
    exact List.forall_mem_singleton.mpr (Or.inl rfl)
  have hone' : ∀ v ∈ fileServerTask.variants, ∃ actions, v.actionAttrs = [some actions] :=
    List.forall_mem_singleton.mpr ⟨_, rfl⟩
  have halloc : ∀ n : Int32, 0 < n → (fun _ : Int32 => true) n = true := fun _ _ => rfl
  have henc : ReqHead.Encodes t.body := by decide
  have hdom : (ClientTask.getAction t.body).InDomain := (by decide : (0 : Int32) ≤ 1)
  obtain ⟨v, hv, hident, req, haction₀, -, hread, hserve, -⟩ :=
    @task_enums_agree APIClientReq Unit Unit Unit Unit _ (some "Errno") fileTask arms rfl hone
      fileServerAttrs rfl fileServerTask hone' _ rfl (fun _ => 0) (fun _ => 0) (fun _ _ => .ok ())
      _ halloc appendsWhatItReturns_api t henc hdom 9 (.withCapacity rpcReqHeaderLen 0) [] ()
  have haction : req.action = .num 1 := by
    rcases List.mem_cons.mp hv with rfl | hv
    · exact (Option.some.inj haction₀).symm
    · rw [List.mem_singleton.mp hv] at hident
      exact absurd hident (by decide)
  obtain ⟨task, hdecode, ⟨hvariant, -⟩, hget⟩ :=
    hserve _ (by rw [haction]; rfl) _ rfl () rfl
  rw [List.append_nil] at hread
  exact ⟨arms, _, t, req, task, rfl, rfl, hread, hdecode, hvariant, haction ▸ hget⟩

end ClientTaskEnum

end RazorRpc
