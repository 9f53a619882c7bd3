import RazorRpc.Task

/-!
# The API layer of the client (`src/client/task.rs`, `stream/src/error.rs`)

A call of the API layer sends an `APIClientReq` and reads its answer back with
`process_res`, into the response type and the error type of the method. The codec
is applied: `Serde M` is what it does to the messages of type `M`.

`ClusterErr` is the error type of the failover tests, which asks for both kinds of
failover.
-/

namespace RazorRpc

open Bytes

/-- `Codec::encode` and `Codec::decode` for the messages of type `M`. -/
class Serde (M : Type) where
  encode : M → Option (List UInt8)
  decode : List UInt8 → Option M

/-- The empty message of the MessagePack codec is nil. What comes behind it is not looked at. -/
instance : Serde Unit where
  encode _ := some [0xc0]
  decode b := if b.head? = some 0xc0 then some () else none

/-- The error of a call: the user's, or the framework's own. -/
inductive RpcError (E : Type) : Type where
  | user (e : E)
  | rpc (e : RpcIntErr)
  deriving DecidableEq

/-- The rest of `RpcErrCodec`. -/
class RpcErrDecode (E : Type) extends RpcErrCodec E where
  /-- from a number, or from a string of bytes -/
  decode : Except (List UInt8) UInt32 → Option E
  /-- `Ok(Some(addr))` to retry at an address, `Ok(None)` to retry at the next node,
  `Err(())` for no retry -/
  shouldFailover : E → Except Unit (Option String) := fun _ => .error ()

instance : RpcErrDecode Unit where
  decode
    | .ok n => if n = 0 then some () else none
    | .error _ => none

instance : RpcErrDecode String where
  encode s := .buf (ofStr s)
  decode
    | .ok _ => none
    | .error b => toStr? b

/-- Errors of a clustered service (`test_failover_redirect.rs`). -/
inductive ClusterErr : Type where
  /-- the leader is elsewhere -/
  | redirect (addr : String)
  /-- try the next node -/
  | retryNext
  /-- don't retry -/
  | internal
  deriving DecidableEq

instance : RpcErrDecode ClusterErr where
  encode
    | .redirect addr => .buf (ofStr "redirect_" ++ ofStr addr)
    | .retryNext => .static "retry_next"
    | .internal => .static "internal"
  decode
    | .ok _ => none
    | .error b =>
      if (ofStr "redirect_").isPrefixOf b then (toStr? (b.drop 9)).map .redirect
      else if b = ofStr "retry_next" then some .retryNext
      else if b = ofStr "internal" then some .internal
      else none
  shouldFailover
    | .redirect addr => .ok (some addr)
    | .retryNext => .ok none
    | .internal => .error ()

namespace APIClientReq

variable (E R : Type) [RpcErrDecode E] [Serde R] [Inhabited R]

/-- The user's error, decoded from what arrived of it. -/
def decodeErr (buf : Except (List UInt8) UInt32) : Except (RpcError E) R :=
  match RpcErrDecode.decode buf with
  | some e => .error (.user e)
  | none => .error (.rpc .decode)

/-- `process_res`: the request without its result, and the result. `none` for a
panic: no result was set, or one that the client never sets. -/
def processRes (r : APIClientReq) : APIClientReq × Option (Except (RpcError E) R) :=
  ({ r with res := none },
    match r.res with
    | none => none
    | some (.ok ()) =>
      match r.resp with
      | some resp =>
        match Serde.decode resp with
        | some msg => some (.ok msg)
        | none => some (.error (.rpc .decode))
      | none => some (.ok default)
    | some (.error (.rpc e)) => some (.error (.rpc e))
    | some (.error (.num n)) => some (decodeErr E R (.ok n))
    | some (.error (.buf b)) => some (decodeErr E R (.error b))
    | some (.error (.static _)) => none)

end APIClientReq

end RazorRpc
