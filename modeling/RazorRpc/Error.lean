import RazorRpc.Lib.Bytes

/-!
# Errors (`stream/src/error.rs`)

`RpcIntErr` is the framework's own error, sent over the wire as a string with
the reserved prefix `rpc_`; `EncodedErr` is what the transport carries. The
order of the variants is part of the design: those below `Method` are the
retriable ones.
-/

namespace RazorRpc

/-- Internal error of the framework. -/
inductive RpcIntErr : Type where
  /-- ping or connect error -/
  | unreachable
  /-- I/O error -/
  | io
  /-- task timeout -/
  | timeout
  /-- method not found -/
  | method
  /-- service not found -/
  | service
  /-- encode error -/
  | encode
  /-- decode error -/
  | decode
  /-- internal error -/
  | internal
  /-- invalid version number in the header -/
  | version
  deriving DecidableEq, Repr

namespace RpcIntErr

/-- The `repr(u8)` discriminant. -/
def code : RpcIntErr → ℕ
  | unreachable => 0
  | io => 1
  | timeout => 2
  | method => 3
  | service => 4
  | encode => 5
  | decode => 6
  | internal => 7
  | version => 8

/-- The derived `PartialOrd` compares discriminants. -/
instance : LT RpcIntErr := ⟨fun a b => a.code < b.code⟩

instance : DecidableRel (α := RpcIntErr) (· < ·) :=
  fun a b => inferInstanceAs (Decidable (a.code < b.code))

/-- The strum serialization. -/
def asRef : RpcIntErr → String
  | unreachable => "rpc_unreachable"
  | io => "rpc_io_err"
  | timeout => "rpc_timeout"
  | method => "rpc_method_notfound"
  | service => "rpc_service_notfound"
  | encode => "rpc_encode"
  | decode => "rpc_decode"
  | internal => "rpc_internal_err"
  | version => "rpc_invalid_ver"

/-- Every variant, in declaration order. -/
def all : List RpcIntErr :=
  [unreachable, io, timeout, method, service, encode, decode, internal, version]

def asBytes (e : RpcIntErr) : List UInt8 := Bytes.ofStr e.asRef

/-- The strum parser: exact match on the serialized names. -/
def fromStr (s : String) : Option RpcIntErr := all.find? fun e => e.asRef == s

/-- Parsing inverts serialization. -/
theorem fromStr_asRef (e : RpcIntErr) : fromStr e.asRef = some e := by
  cases e <;> decide

end RpcIntErr

/-- The prefix reserved for `RpcIntErr` on the wire. -/
def rpcErrPrefix : String := "rpc_"

/-- A container for an error parsed from or sent into the transport. -/
inductive EncodedErr : Type where
  /-- an internal error, sent as its name -/
  | rpc (e : RpcIntErr)
  /-- a number, for errno and the like -/
  | num (n : UInt32)
  /-- a static string, only on the server side -/
  | static (s : String)
  /-- any other string of bytes -/
  | buf (b : List UInt8)
  deriving DecidableEq

end RazorRpc
