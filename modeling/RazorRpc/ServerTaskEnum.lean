import RazorRpc.Task
import Mathlib.Data.List.Forall2

/-!
# Task enums of a server (`stream/macros/src/server_task_enum.rs`)

`#[server_task_enum(req, ..)]` writes two functions for an enum whose variants each hold
one task type: `decode_req`, which picks a variant by the action of a request, and
`get_action`, which gives the action back. The two are generated by different rules.

* The macro is a function on definitions (`expand`), which may panic: `Except String`.
* What it writes is data, a list of arms for each of the two `match`es, run by `decodeReq`
  and `getAction` as Rust runs a `match`: the first arm that fits.
* `EnumVariant.lists` says which actions a variant is meant for, from the definition alone.

`server_task_enum_sound` relates the last to the other two.
-/

namespace RazorRpc

/-- An action that owns its name (`proto.rs`). -/
inductive RpcActionOwned : Type where
  | str (s : String)
  | num (n : Int32)
  deriving DecidableEq

namespace RpcActionOwned

/-- `From<RpcAction>`. -/
def ofAction : RpcAction → RpcActionOwned
  | .str s => .str s
  | .num n => .num n

def toAction : RpcActionOwned → RpcAction
  | str s => .str s
  | num n => .num n

@[simp] theorem toAction_ofAction (a : RpcAction) : (ofAction a).toAction = a := by
  cases a <;> rfl

end RpcActionOwned

namespace ServerTaskEnum

/-! ## The task types inside (`server/task.rs`) -/

/-- `ServerTaskVariant` as it is decoded. -/
structure Variant (M E N : Type) where
  seq : UInt64
  action : RpcActionOwned
  msg : M
  blob : Option (List UInt8)
  res : Option (Except E Unit)
  noti : Option N

/-- `ServerTaskVariantFull` as it is decoded. -/
structure VariantFull (R P E N : Type) where
  seq : UInt64
  action : RpcActionOwned
  req : R
  reqBlob : Option (List UInt8)
  resp : Option P
  respBlob : Option (List UInt8)
  res : Option (Except E Unit)
  noti : Option N

/-- A request as `decode_req` gets it: action, number, message, blob, and the way back. -/
structure Req (N : Type) where
  action : RpcAction
  seq : UInt64
  msg : List UInt8
  blob : Option (List UInt8)
  noti : N

section Inner

variable {M P E N : Type}

/-- `ServerTaskVariant::decode_req`; `decode` is the codec at its message type. -/
def Variant.decodeReq (decode : List UInt8 → Except Unit M) (r : Req N) :
    Except Unit (Variant M E N) := do
  let req ← decode r.msg
  return { seq := r.seq, action := .ofAction r.action, msg := req, blob := r.blob, res := none,
           noti := some r.noti }

/-- `ServerTaskVariantFull::decode_req`. -/
def VariantFull.decodeReq (decode : List UInt8 → Except Unit M) (r : Req N) :
    Except Unit (VariantFull M P E N) := do
  let req ← decode r.msg
  return { seq := r.seq, action := .ofAction r.action, req, reqBlob := r.blob, res := none,
           resp := none, respBlob := none, noti := some r.noti }

/-- A task of one of the two types. -/
inductive InnerTask (M P E N : Type) : Type where
  | variant (t : Variant M E N)
  | full (t : VariantFull M P E N)

/-- `ServerTaskAction` for both. -/
def InnerTask.getAction : InnerTask M P E N → RpcAction
  | variant t => t.action.toAction
  | full t => t.action.toAction

end Inner

inductive InnerKind : Type where
  | variant
  | full
  deriving DecidableEq

/-- The type in a variant, with its text as the macro prints it. -/
structure InnerType where
  kind : InnerKind
  text : String
  deriving DecidableEq

/-- `decode_req` of the type in a variant; `decode` is the codec at each message type. -/
def InnerType.decodeReq {M P E N : Type} (decode : InnerType → List UInt8 → Except Unit M)
    (inner : InnerType) (r : Req N) : Except Unit (InnerTask M P E N) :=
  match inner.kind with
  | .variant => (Variant.decodeReq (decode inner) r).map .variant
  | .full => (VariantFull.decodeReq (decode inner) r).map .full

/-- The task remembers the action it was decoded for. -/
theorem InnerType.getAction_of_decodeReq {M P E N : Type}
    {decode : InnerType → List UInt8 → Except Unit M} {inner : InnerType} {r : Req N}
    {t : InnerTask M P E N} (h : inner.decodeReq decode r = .ok t) : t.getAction = r.action := by
  rw [InnerType.decodeReq] at h
  split at h
  · rw [Variant.decodeReq] at h
    rcases hdecode : decode inner r.msg with _ | msg
    · rw [hdecode] at h
      cases h
    · rw [hdecode] at h
      cases h
      exact RpcActionOwned.toAction_ofAction _
  · rw [VariantFull.decodeReq] at h
    rcases hdecode : decode inner r.msg with _ | msg
    · rw [hdecode] at h
      cases h
    · rw [hdecode] at h
      cases h
      exact RpcActionOwned.toAction_ofAction _

/-! ## Definitions -/

/-- What the macro is given. -/
structure ServerTaskEnumAttrs where
  req : Bool
  resp : Bool
  respType : Option String
  error : String

/-- An argument of `#[action(..)]`. -/
inductive NestedMeta : Type where
  | litStr (s : String)
  | litInt (v : ℤ)
  /-- an enum variant, by its path -/
  | path (p : String)
  /-- any other literal or item -/
  | other
  deriving DecidableEq

/-- A variant of the enum. -/
structure EnumVariant where
  ident : String
  /-- the type of its field; `none` unless it is a tuple with a single one -/
  field : Option InnerType
  /-- its `#[action]` attributes with their arguments; `none` where there is no list -/
  actionAttrs : List (Option (List NestedMeta))

/-- An enum; its variants have different names. -/
structure EnumDef where
  ident : String
  variants : List EnumVariant
  nodup : (variants.map EnumVariant.ident).Nodup

/-! ## The macro -/

/-- The pattern of an arm of `decode_req`. -/
inductive Pattern : Type where
  /-- `RpcAction::Str(s)` -/
  | str (s : String)
  /-- `RpcAction::Num(n)` -/
  | num (n : Int32)
  /-- `RpcAction::Num(val) if val == (p as i32)` -/
  | numIf (p : String)

/-- An arm of `decode_req`: decode as `inner`, and wrap. -/
structure DecodeArm where
  pat : Pattern
  inner : InnerType
  ident : String

/-- What an arm of `get_action` returns. -/
inductive ActionExpr : Type where
  | str (s : String)
  | num (n : Int32)
  /-- `RpcAction::Num(p as i32)` -/
  | path (p : String)
  /-- `inner.get_action()` -/
  | inner

/-- An arm of `get_action`. -/
structure GetActionArm where
  ident : String
  expr : ActionExpr

/-- The code that is generated for requests. -/
structure Generated where
  decodeArms : List DecodeArm
  getActionArms : List GetActionArm

/-- `base10_parse::<i32>()`, with the `expect` of the macro. -/
def base10Parse (v : ℤ) : Except String Int32 :=
  if -2 ^ 31 ≤ v ∧ v < 2 ^ 31 then .ok (Int32.ofInt v)
  else .error "Invalid integer literal for action"

/-- `get_action_attribute`: the first list that is not empty. -/
def getActionAttribute (v : EnumVariant) : List NestedMeta :=
  (v.actionAttrs.findSome? (·.filter (!·.isEmpty))).getD []

def supportedActions : String :=
  "Only string/integer literals and enum variants are supported."

/-- The pattern for an action. -/
def decodePattern : NestedMeta → Except String Pattern
  | .litStr s => .ok (.str s)
  | .litInt v => (base10Parse v).map .num
  | .path p => .ok (.numIf p)
  | .other => .error ("Unsupported action type for decode_arms. " ++ supportedActions)

/-- What `get_action` returns for a variant with this action only. -/
def staticAction : NestedMeta → Except String ActionExpr
  | .litStr s => .ok (.str s)
  | .litInt v => (base10Parse v).map .num
  | .path p => .ok (.path p)
  | .other => .error ("Unsupported action type for get_action. " ++ supportedActions)

/-- What `get_action` returns for a variant with these actions. -/
def actionExpr : List NestedMeta → Except String ActionExpr
  | [] => .error "Must specify #[action] attribute for req case"
  | [action] => staticAction action
  | _ :: _ :: _ => .ok .inner

def fieldOf (v : EnumVariant) : Except String InnerType :=
  match v.field with
  | some inner => .ok inner
  | none => .error "Enum variants must be tuple-style with a single field"

/-- The arms for one variant, if the enum is for requests. -/
def reqArms (attrs : ServerTaskEnumAttrs) (inner : InnerType) (v : EnumVariant) :
    Except String (List DecodeArm × List GetActionArm) :=
  if attrs.req then do
    let actions := getActionAttribute v
    let decodeArms ← actions.mapM fun action => do
      let pat ← decodePattern action
      return ⟨pat, inner, v.ident⟩
    let expr ← actionExpr actions
    return (decodeArms, [⟨v.ident, expr⟩])
  else return ([], [])

/-- The body of the loop over the variants; `types` are the texts of all the types. -/
def variantArms (attrs : ServerTaskEnumAttrs) (enumName : String) (types : List String)
    (v : EnumVariant) : Except String (List DecodeArm × List GetActionArm) := do
  let inner ← fieldOf v
  let arms ← reqArms attrs inner v
  if 1 < types.count inner.text then
    .error ("Duplicate sub-type `" ++ inner.text ++ "` found in enum `" ++ enumName ++
      "`. `From` implementation cannot be generated for duplicate sub-types.")
  else return arms

/-- The type of the response: the enum itself, or the one given. -/
def respType (attrs : ServerTaskEnumAttrs) (enumName : String) : Except String String :=
  match attrs.resp, attrs.respType with
  | true, some _ =>
    .error "Cannot specify 'resp_type' when 'resp' is present. Response type is Self."
  | true, none => .ok enumName
  | false, some t => .ok t
  | false, none => .error "resp_type must be specified when 'resp' is not present"

/-- `server_task_enum_impl`, as far as requests go. -/
def expand (attrs : ServerTaskEnumAttrs) (d : EnumDef) : Except String Generated := do
  let types ← d.variants.mapM fieldOf
  let _ ← respType attrs d.ident
  let arms ← d.variants.mapM (variantArms attrs d.ident (types.map InnerType.text))
  return ⟨arms.flatMap Prod.fst, arms.flatMap Prod.snd⟩

/-! ## The code it writes -/

section Run

variable {M P E N : Type} (asI32 : String → Int32)

/-- A value of the enum: a variant, and the task in it. -/
structure EnumTask (M P E N : Type) where
  variant : String
  task : InnerTask M P E N

/-- The pattern fits, its guard included; `asI32` are the casts `p as i32`. -/
def Pattern.fits : Pattern → RpcAction → Bool
  | .str s, a => a = .str s
  | .num n, a => a = .num n
  | .numIf p, .num val => val = asI32 p
  | .numIf _, .str _ => false

/-- `decode_req` of the enum. -/
def Generated.decodeReq (decode : InnerType → List UInt8 → Except Unit M) (g : Generated)
    (r : Req N) : Except Unit (EnumTask M P E N) :=
  match g.decodeArms.find? (·.pat.fits asI32 r.action) with
  | some arm => do
    let task ← arm.inner.decodeReq decode r
    return ⟨arm.ident, task⟩
  | none => .error ()

/-- The right side of an arm of `get_action`. -/
def ActionExpr.eval (task : InnerTask M P E N) : ActionExpr → RpcAction
  | .str s => .str s
  | .num n => .num n
  | .path p => .num (asI32 p)
  | .inner => task.getAction

/-- `get_action` of the enum; `none` if no arm fits. -/
def Generated.getAction (g : Generated) (t : EnumTask M P E N) : Option RpcAction :=
  (g.getActionArms.find? (·.ident = t.variant)).map (·.expr.eval asI32 t.task)

end Run

/-! ## What a variant is meant for -/

/-- The action that an argument of `#[action]` stands for. -/
def NestedMeta.action (asI32 : String → Int32) : NestedMeta → Option RpcAction
  | .litStr s => some (.str s)
  | .litInt v => some (.num (Int32.ofInt v))
  | .path p => some (.num (asI32 p))
  | .other => none

/-- The variant lists this action. -/
def EnumVariant.lists (asI32 : String → Int32) (a : RpcAction) (v : EnumVariant) : Bool :=
  v.actionAttrs.any fun attr => attr.any (·.any (·.action asI32 = some a))

/-! ## Fallible code -/

theorem bind_eq_ok {ε α β : Type} {x : Except ε α} {f : α → Except ε β} {b : β} :
    x >>= f = .ok b ↔ ∃ a, x = .ok a ∧ f a = .ok b := by
  cases x with
  | error e =>
    constructor
    · intro h
      cases h
    · rintro ⟨a, ha, -⟩
      cases ha
  | ok a =>
    constructor
    · exact fun h => ⟨a, rfl, h⟩
    · rintro ⟨a', ha, h⟩
      cases ha
      exact h

theorem mapM_eq_ok {ε α β : Type} {f : α → Except ε β} {l : List α} {r : List β}
    (h : l.mapM f = .ok r) : List.Forall₂ (fun a b => f a = .ok b) l r := by
  induction l generalizing r with
  | nil =>
    cases h
    exact .nil
  | cons a l ih =>
    rw [List.mapM_cons] at h
    obtain ⟨b, hb, h⟩ := bind_eq_ok.mp h
    obtain ⟨bs, hbs, h⟩ := bind_eq_ok.mp h
    cases h
    exact .cons hb (ih hbs)

/-! ## One action -/

variable {asI32 : String → Int32} {a : RpcAction}

theorem base10Parse_eq_ok {v : ℤ} {n : Int32} (h : base10Parse v = .ok n) :
    n = Int32.ofInt v := by
  rw [base10Parse] at h
  split at h
  · exact (Except.ok.inj h).symm
  · cases h

/-- The pattern fits the action it was made for and no other. -/
theorem fits_decodePattern {action : NestedMeta} {pat : Pattern}
    (h : decodePattern action = .ok pat) :
    pat.fits asI32 a = decide (action.action asI32 = some a) := by
  cases action with
  | litStr s =>
    cases h
    simp [Pattern.fits, NestedMeta.action, eq_comm]
  | litInt v =>
    rcases hparse : base10Parse v with _ | n
    · rw [decodePattern, hparse] at h
      cases h
    · rw [decodePattern, hparse] at h
      cases h
      rw [base10Parse_eq_ok hparse]
      simp [Pattern.fits, NestedMeta.action, eq_comm]
  | path p =>
    cases h
    cases a with
    | str s => simp [Pattern.fits, NestedMeta.action]
    | num n => simp [Pattern.fits, NestedMeta.action, eq_comm]
  | other => cases h

/-- The one action of a variant is what `get_action` returns. -/
theorem eval_staticAction {M P E N : Type} {action : NestedMeta} {expr : ActionExpr}
    (h : staticAction action = .ok expr) (ha : action.action asI32 = some a)
    (task : InnerTask M P E N) : expr.eval asI32 task = a := by
  cases action with
  | litStr s =>
    cases h
    exact Option.some.inj ha
  | litInt v =>
    rcases hparse : base10Parse v with _ | n
    · rw [staticAction, hparse] at h
      cases h
    · rw [staticAction, hparse] at h
      cases h
      rw [base10Parse_eq_ok hparse]
      exact Option.some.inj ha
  | path p =>
    cases h
    exact Option.some.inj ha
  | other => cases h

/-- Whichever rule `get_action` was generated by, it returns the action the task was decoded
for, if the variant lists that. -/
theorem eval_actionExpr {M P E N : Type} {actions : List NestedMeta} {expr : ActionExpr}
    (h : actionExpr actions = .ok expr) (ha : ∃ action ∈ actions, action.action asI32 = some a)
    {task : InnerTask M P E N} (htask : task.getAction = a) : expr.eval asI32 task = a := by
  match actions with
  | [] => cases h
  | [action] =>
    obtain ⟨action', hmem, ha⟩ := ha
    rw [List.mem_singleton.mp hmem] at ha
    exact eval_staticAction h ha task
  | _ :: _ :: _ =>
    cases h
    exact htask

/-! ## One variant -/

/-- The arms of a variant that was accepted. -/
structure ArmsOf (v : EnumVariant) (r : List DecodeArm × List GetActionArm) (inner : InnerType)
    (expr : ActionExpr) : Prop where
  field : v.field = some inner
  isExpr : actionExpr (getActionAttribute v) = .ok expr
  getActionArm : r.2 = [⟨v.ident, expr⟩]
  decodeArms : List.Forall₂ (fun action arm => ∃ pat, decodePattern action = .ok pat ∧
    arm = (⟨pat, inner, v.ident⟩ : DecodeArm)) (getActionAttribute v) r.1

theorem variantArms_eq_ok {attrs : ServerTaskEnumAttrs} (hreq : attrs.req = true)
    {enumName : String} {types : List String} {v : EnumVariant}
    {r : List DecodeArm × List GetActionArm} (h : variantArms attrs enumName types v = .ok r) :
    ∃ inner expr, ArmsOf v r inner expr := by
  obtain ⟨inner, hinner, h⟩ := bind_eq_ok.mp h
  obtain ⟨arms, harms, h⟩ := bind_eq_ok.mp h
  split at h
  · cases h
  · cases h
    rw [reqArms, if_pos hreq] at harms
    obtain ⟨decodeArms, hdecode, harms⟩ := bind_eq_ok.mp harms
    obtain ⟨expr, hexpr, harms⟩ := bind_eq_ok.mp harms
    cases harms
    refine ⟨inner, expr, ?_, hexpr, rfl, (mapM_eq_ok hdecode).imp fun action arm harm => ?_⟩
    · rw [fieldOf] at hinner
      split at hinner
      · rename_i inner' hfield
        cases hinner
        exact hfield
      · cases hinner
    · obtain ⟨pat, hpat, harm⟩ := bind_eq_ok.mp harm
      cases harm
      exact ⟨pat, hpat, rfl⟩

/-- With one attribute, a variant lists the actions of that. -/
theorem lists_iff {v : EnumVariant} {actions : List NestedMeta}
    (h : v.actionAttrs = [some actions]) :
    v.lists asI32 a = true ↔ ∃ action ∈ getActionAttribute v, action.action asI32 = some a := by
  have hattr : getActionAttribute v = actions := by
    rw [getActionAttribute, h]
    cases actions <;> rfl
  rw [hattr, EnumVariant.lists, h]
  simp

/-- One of the arms fits exactly if one of the actions is this. -/
theorem find?_arms (asI32 : String → Int32) (a : RpcAction) {inner : InnerType} {ident : String}
    {actions : List NestedMeta}
    {arms : List DecodeArm} (h : List.Forall₂ (fun action arm => ∃ pat,
      decodePattern action = .ok pat ∧ arm = (⟨pat, inner, ident⟩ : DecodeArm)) actions arms) :
    ((∀ action ∈ actions, action.action asI32 ≠ some a) ∧
        arms.find? (·.pat.fits asI32 a) = none) ∨
      (∃ action ∈ actions, action.action asI32 = some a) ∧
        ∃ pat, arms.find? (·.pat.fits asI32 a) = some ⟨pat, inner, ident⟩ := by
  induction h with
  | nil => exact Or.inl ⟨List.forall_mem_nil _, rfl⟩
  | @cons action arm actions arms harm _ ih =>
    obtain ⟨pat, hpat, rfl⟩ := harm
    have hfits : pat.fits asI32 a = decide (action.action asI32 = some a) :=
      fits_decodePattern hpat
    by_cases ha : action.action asI32 = some a
    · refine Or.inr ⟨⟨action, List.mem_cons_self, ha⟩, pat, List.find?_cons_of_pos ?_⟩
      rw [hfits]
      exact decide_eq_true ha
    · rw [List.find?_cons_of_neg (by rw [hfits]; simpa using ha)]
      rcases ih with ⟨hnone, hfind⟩ | ⟨⟨action', hmem, ha'⟩, hfind⟩
      · exact Or.inl ⟨List.forall_mem_cons.mpr ⟨ha, hnone⟩, hfind⟩
      · exact Or.inr ⟨⟨action', List.mem_cons_of_mem _ hmem, ha'⟩, hfind⟩

theorem ArmsOf.find? {v : EnumVariant} {r : List DecodeArm × List GetActionArm}
    {inner : InnerType} {expr : ActionExpr} (h : ArmsOf v r inner expr) {actions : List NestedMeta}
    (hone : v.actionAttrs = [some actions]) :
    (v.lists asI32 a = false ∧ r.1.find? (·.pat.fits asI32 a) = none) ∨
      v.lists asI32 a = true ∧ ∃ pat, r.1.find? (·.pat.fits asI32 a) =
        some ⟨pat, inner, v.ident⟩ := by
  rcases find?_arms asI32 a h.decodeArms with ⟨hnone, hfind⟩ | ⟨hsome, hfind⟩
  · refine Or.inl ⟨?_, hfind⟩
    rw [← Bool.not_eq_true, lists_iff hone]
    rintro ⟨action, hmem, ha⟩
    exact hnone action hmem ha
  · exact Or.inr ⟨(lists_iff hone).mpr hsome, hfind⟩

/-! ## All variants -/

section Enum

variable {vs : List EnumVariant} {rs : List (List DecodeArm × List GetActionArm)}
  (harms : List.Forall₂ (fun v r => ∃ inner expr, ArmsOf v r inner expr) vs rs)

include harms

/-- The first arm that fits is one of the first variant that lists the action. -/
theorem find?_decodeArms (hone : ∀ v ∈ vs, ∃ actions, v.actionAttrs = [some actions])
    (asI32 : String → Int32) (a : RpcAction) :
    (vs.find? (·.lists asI32 a) = none ∧
        (rs.flatMap Prod.fst).find? (·.pat.fits asI32 a) = none) ∨
      ∃ v pat inner, vs.find? (·.lists asI32 a) = some v ∧ v.field = some inner ∧
        (rs.flatMap Prod.fst).find? (·.pat.fits asI32 a) = some ⟨pat, inner, v.ident⟩ := by
  induction harms with
  | nil => exact Or.inl ⟨rfl, rfl⟩
  | @cons v r vs rs harm _ ih =>
    obtain ⟨inner, expr, harm⟩ := harm
    obtain ⟨⟨actions, hv⟩, hone⟩ := List.forall_mem_cons.mp hone
    rw [List.flatMap_cons, List.find?_append]
    rcases harm.find? hv with ⟨hlists, hnone⟩ | ⟨hlists, pat, hfind⟩
    · rw [hnone, Option.none_or, List.find?_cons_of_neg (by rw [hlists]; exact Bool.false_ne_true)]
      exact ih hone
    · refine Or.inr ⟨v, pat, inner, List.find?_cons_of_pos hlists, harm.field, ?_⟩
      rw [hfind, Option.some_or]

/-- The arm of `get_action` for a variant is its own. -/
theorem find?_getActionArms (hnodup : (vs.map EnumVariant.ident).Nodup) {v : EnumVariant}
    (hv : v ∈ vs) :
    ∃ expr, (rs.flatMap Prod.snd).find? (·.ident = v.ident) = some ⟨v.ident, expr⟩ ∧
      actionExpr (getActionAttribute v) = .ok expr := by
  induction harms with
  | nil => cases hv
  | @cons w r vs rs harm _ ih =>
    obtain ⟨inner, expr, harm⟩ := harm
    rw [List.map_cons, List.nodup_cons] at hnodup
    rw [List.flatMap_cons, harm.getActionArm, List.singleton_append]
    rcases List.mem_cons.mp hv with rfl | hv
    · exact ⟨expr, List.find?_cons_of_pos (by simp), harm.isExpr⟩
    · have hne : w.ident ≠ v.ident := fun heq => hnodup.1 (by
        rw [heq]
        exact List.mem_map_of_mem hv)
      obtain ⟨expr', hfind, hexpr⟩ := ih hnodup.2 hv
      exact ⟨expr', (List.find?_cons_of_neg (by simpa using hne)).trans hfind, hexpr⟩

end Enum

/-- **A task enum decodes and reports the same action.** For every enum that the macro
accepts, with one `#[action]` attribute for each variant, and every request: if variants
list its action, the first of them decodes it, and a task so decoded is that variant and
has that action; if none does, decoding fails. -/
theorem server_task_enum_sound {M P E N : Type} {attrs : ServerTaskEnumAttrs}
    (hreq : attrs.req = true) {d : EnumDef}
    (hone : ∀ v ∈ d.variants, ∃ actions, v.actionAttrs = [some actions]) {g : Generated}
    (h : expand attrs d = .ok g) (asI32 : String → Int32)
    (decode : InnerType → List UInt8 → Except Unit M) (r : Req N) :
    match d.variants.find? (·.lists asI32 r.action) with
    | some v => ∃ inner, v.field = some inner ∧
        (g.decodeReq asI32 decode r : Except Unit (EnumTask M P E N)) =
          (inner.decodeReq decode r).map (EnumTask.mk v.ident) ∧
        ∀ task : EnumTask M P E N, g.decodeReq asI32 decode r = .ok task →
          task.variant = v.ident ∧ g.getAction asI32 task = some r.action
    | none => (g.decodeReq asI32 decode r : Except Unit (EnumTask M P E N)) = .error () := by
  obtain ⟨types, -, h⟩ := bind_eq_ok.mp h
  obtain ⟨-, -, h⟩ := bind_eq_ok.mp h
  obtain ⟨arms, harms, h⟩ := bind_eq_ok.mp h
  cases h
  replace harms := (mapM_eq_ok harms).imp fun v r h => variantArms_eq_ok hreq h
  rcases find?_decodeArms harms hone asI32 r.action with
    ⟨hnone, hfind⟩ | ⟨v, pat, inner, hsome, hfield, hfind⟩
  · rw [hnone]
    simp only [Generated.decodeReq, hfind]
  · rw [hsome]
    have hdecode : (Generated.decodeReq asI32 decode
        ⟨arms.flatMap Prod.fst, arms.flatMap Prod.snd⟩ r : Except Unit (EnumTask M P E N)) =
        (inner.decodeReq decode r).map (EnumTask.mk v.ident) := by
      simp only [Generated.decodeReq, hfind]
      rcases inner.decodeReq decode r with _ | task <;> rfl
    refine ⟨inner, hfield, hdecode, fun task htask => ?_⟩
    rw [hdecode] at htask
    rcases hinner : (inner.decodeReq decode r : Except Unit (InnerTask M P E N)) with _ | t
    · rw [hinner] at htask
      cases htask
    · rw [hinner] at htask
      cases htask
      have hv := List.mem_of_find?_eq_some hsome
      obtain ⟨actions, hattr⟩ := hone v hv
      obtain ⟨expr, hget, hexpr⟩ := find?_getActionArms harms d.nodup hv
      refine ⟨rfl, ?_⟩
      rw [Generated.getAction, hget]
      refine congrArg some (eval_actionExpr hexpr ?_ (InnerType.getAction_of_decodeReq hinner))
      exact (lists_iff hattr).mp (List.find?_some hsome)

/-- Two variants; both list the name `act`, one of them with the variant of an enum. -/
def twoTasks : EnumDef where
  ident := "MyTask"
  variants :=
    [⟨"TaskA", some ⟨.variant, "ServerTaskVariant < Resp , MsgA , Errno >"⟩,
      [some [.litInt 1, .litInt 2, .litStr "act"]]⟩,
    ⟨"TaskB", some ⟨.full, "ServerTaskVariantFull < Resp , MsgB , RespB , Errno >"⟩,
      [some [.litStr "act", .path "Op::Del"]]⟩]
  nodup := by decide

/-- `#[server_task_enum(req, resp_type = Resp, error = Errno)]`. -/
def reqAttrs : ServerTaskEnumAttrs :=
  { req := true, resp := false, respType := some "Resp", error := "Errno" }

theorem server_task_enum_twoTasks :
    ∃ (g : Generated) (task : EnumTask Unit Unit Unit Unit), expand reqAttrs twoTasks = .ok g ∧
      g.decodeReq (fun _ => 7) (fun _ _ => .ok ()) ⟨.str "act", 1, [], none, ()⟩ = .ok task ∧
      task.variant = "TaskA" ∧ g.getAction (fun _ => 7) task = some (.str "act") := by
  have hone : ∀ v ∈ twoTasks.variants, ∃ actions, v.actionAttrs = [some actions] := by
    simp [twoTasks]
  obtain ⟨-, -, -, hsound⟩ := @server_task_enum_sound Unit Unit Unit Unit reqAttrs rfl twoTasks
    hone _ rfl (fun _ => 7) (fun _ _ => .ok ()) ⟨.str "act", 1, [], none, ()⟩
  exact ⟨_, _, rfl, rfl, hsound _ rfl⟩

end ServerTaskEnum

end RazorRpc
