import RazorRpc.Buffer
import RazorRpc.Failover
import RazorRpc.TcpClient

/-!
# The blob of a response, over several attempts

A task keeps its buffer while `FailoverPool` gives it to one connection after the
other. An attempt that gets as far as the blob of a response makes the buffer as
long as that blob; when the connection fails in the middle of it, the task is
retried with the buffer as it is. The response that is accepted in the end makes
the buffer its own, unless it has no blob: then nobody looks at the buffer.

* `BlobTask` — what `client_task` generates for a field `resp_blob`;
* `Trial`, `retried`, `accepted` — the attempts of one task;
* `Ending` — what an attempt can come to.

The result is `respBlob_exact_iff`.
-/

namespace RazorRpc

open Prog

/-! ## A task with a buffer -/

/-- A task with a field `resp_blob`, around the rest of it. -/
structure BlobTask (heap : Heap) (A : Type) where
  rest : A
  respBlob : RespBlob

/-- Only `reserve_resp_blob`, and what is read into its slice, concerns the buffer. -/
instance {heap : Heap} {A : Type} [ClientTask A] : ClientTask (BlobTask heap A) where
  getAction t := ClientTask.getAction t.rest
  encodeReq t := ClientTask.encodeReq t.rest
  getReqBlob t := ClientTask.getReqBlob t.rest
  decodeResp t buf :=
    let r := ClientTask.decodeResp t.rest buf
    ({ t with rest := r.1 }, r.2)
  reserveRespBlob t size :=
    let r := t.respBlob.reserve heap size
    ({ t with respBlob := r.1 }, r.2)
  fillRespBlob t blob := { t with respBlob := t.respBlob.fill blob }
  setCustomError t e lastIndex configVer :=
    { t with rest := ClientTask.setCustomError t.rest e lastIndex configVer }
  setRpcError t e := { t with rest := ClientTask.setRpcError t.rest e }
  setOk t := { t with rest := ClientTask.setOk t.rest }

/-! ## Attempts -/

/-- What a connection makes of a task. -/
inductive Fate : Type where
  /-- no response: the task fails -/
  | unanswered (e : RpcIntErr)
  /-- a response with this header comes, and so much of its body before the
  connection fails -/
  | answered (head : RespHead) (arrived : List UInt8)

/-- One attempt: the number and the route the task is sent with, and what becomes of
it. -/
structure Trial where
  seq : UInt64
  lastIndex : UInt64
  configVer : UInt64
  fate : Fate

section Attempts

variable {B : Type}

/-- Reads from a connection that fails after these bytes; what has ended so far. -/
def cutOff : Handler (RecvOp B) RecvOp.Res (List UInt8 × List (Completion B))
  | .readExact n, (arrived, ended) =>
    if n ≤ arrived.length then ((arrived.drop n, ended), some (some (arrived.take n)))
    else (([], ended), some none)
  | .done t, (arrived, ended) => ((arrived, ended ++ [.done t]), some ())
  | .errorHandle t, (arrived, ended) => ((arrived, ended ++ [.errorHandled t]), some ())
  | _, s => (s, none)

/-- The task as it is sent. -/
def Trial.sent (a : Trial) (t : Task (FailoverTask B)) : Task (FailoverTask B) :=
  { t with
    seq := a.seq
    body := { t.body with lastIndex := a.lastIndex, configVer := a.configVer } }

variable [ClientTask B]

/-- How the task ends. -/
def Fate.ends (pf : Platform) (t : Task B) : Fate → Option (Completion B)
  | .unanswered e => some (.errorHandled (t.setRpcError e))
  | .answered head arrived => (poll cutOff (TcpClient.recvTask pf head t) (arrived, [])).1.2.head?

/-- The task after attempts that all failed and were all retried. -/
def retried (pf : Platform) (retryLimit : ℕ) :
    Task (FailoverTask B) → List Trial → Option (Task (FailoverTask B))
  | t, [] => some t
  | t, a :: as =>
    match a.fate.ends pf (a.sent t) with
    | some (.errorHandled t) =>
      if t.body.wantsRetry retryLimit then retried pf retryLimit t as else none
    | _ => none

/-- The user's task at `done()`: attempts that failed, then one that did not. -/
def accepted (pf : Platform) (retryLimit : ℕ) (t : Task (FailoverTask B)) (as : List Trial)
    (a : Trial) : Option (Task B) :=
  (retried pf retryLimit t as).bind fun t =>
    match a.fate.ends pf (a.sent t) with
    | some (.done t) => some t.user
    | _ => none

end Attempts

/-- The blob length in the header of the response. -/
def Fate.blobLen : Fate → Int32
  | .unanswered _ => 0
  | .answered head _ => head.blobLen

/-- The blob of the response. -/
def Fate.blob : Fate → List UInt8
  | .unanswered _ => []
  | .answered head arrived =>
    (arrived.drop head.msgLen.toNat).take head.blobLen.toNatClampNeg

/-- The length `reserve_resp_blob` is asked for: the message has arrived, and there is
a blob. -/
def Fate.reserved : Fate → Option Int32
  | .unanswered _ => none
  | .answered head arrived =>
    if head.flag = 0 ∧ head.msgLen.toNat ≤ arrived.length ∧ 0 < head.blobLen then
      some head.blobLen
    else none

/-! ## What an attempt can come to -/

section Ending

variable {B : Type} [ClientTask B]

/-- What the response with this header can do to a task. -/
inductive Ending (t : Task B) (head : RespHead) (arrived : List UInt8) : Completion B → Prop
  /-- an error response, or one that ends before the message does -/
  | failed (e : RpcIntErr) (h : head.flag ≠ 0 ∨ arrived.length < head.msgLen.toNat) :
      Ending t head arrived (.errorHandled (t.setRpcError e))
  | custom (e : EncodedErr) : Ending t head arrived (.errorHandled (t.setCustomError e 0 0))
  /-- the buffer is too small, or the message makes no sense -/
  | undecoded (t' : Task B) : Ending t head arrived (.errorHandled (t'.setRpcError .decode))
  /-- the connection fails in the blob -/
  | cut {t' : Task B} {len : ℕ} (hflag : head.flag = 0)
      (hmsg : head.msgLen.toNat ≤ arrived.length) (hblob : 0 < head.blobLen)
      (h : t.reserveRespBlob head.blobLen = (t', some len)) :
      Ending t head arrived (.errorHandled (t'.setRpcError .io))
  | filled {t' u : Task B} {len : ℕ} (hflag : head.flag = 0)
      (hmsg : head.msgLen.toNat ≤ arrived.length) (hblob : 0 < head.blobLen)
      (h : t.reserveRespBlob head.blobLen = (t', some len))
      (hu : u = t'.fillRespBlob ((arrived.drop head.msgLen.toNat).take len) ∨
        ∃ msg, u = ((t'.fillRespBlob ((arrived.drop head.msgLen.toNat).take len)).decodeResp msg).1) :
      Ending t head arrived (.done u.setOk)
  | plain {u : Task B} (hblob : ¬ 0 < head.blobLen) (hu : u = t ∨ ∃ msg, u = (t.decodeResp msg).1) :
      Ending t head arrived (.done u.setOk)

omit [ClientTask B] in
theorem poll_cutOff_readExact {α : Type} (n : ℕ) (k : Option (List UInt8) → Recv B α)
    (arrived : List UInt8) (ended : List (Completion B)) :
    poll cutOff (act (.readExact n) k) (arrived, ended) =
      if n ≤ arrived.length then poll cutOff (k (some (arrived.take n))) (arrived.drop n, ended)
      else poll cutOff (k none) ([], ended) := by
  by_cases hn : n ≤ arrived.length
  · rw [poll, cutOff, if_pos hn, if_pos hn]
  · rw [poll, cutOff, if_neg hn, if_neg hn]

omit [ClientTask B] in
/-- The message is read, or the connection fails before its end. -/
theorem poll_cutOff_recvMsg {α : Type} (head : RespHead) (k : Option (List UInt8) → Recv B α)
    (arrived : List UInt8) (ended : List (Completion B)) :
    poll cutOff (TcpClient.recvMsg head >>= k) (arrived, ended) =
      if head.msgLen.toNat ≤ arrived.length then
        poll cutOff (k (some (arrived.take head.msgLen.toNat)))
          (arrived.drop head.msgLen.toNat, ended)
      else poll cutOff (k none) ([], ended) := by
  rw [TcpClient.recvMsg]
  split
  · exact poll_cutOff_readExact _ _ _ _
  · rename_i hpos
    have hzero : head.msgLen.toNat = 0 := by
      rw [UInt32.lt_iff_toNat_lt] at hpos
      exact Nat.eq_zero_of_not_pos hpos
    rw [hzero, if_pos (Nat.zero_le _), List.take_zero, List.drop_zero]
    rfl

omit [ClientTask B] in
/-- What is skipped ends nothing. -/
theorem ended_recvAndDump (pf : Platform) (l : ℕ) (arrived : List UInt8)
    (ended : List (Completion B)) :
    (poll cutOff (TcpClient.recvAndDump pf l) (arrived, ended)).1.2 = ended := by
  by_cases hpos : 0 < Int32.ofNat l
  · rw [TcpClient.recvAndDump_of_pos hpos]
    split
    · change (poll cutOff (act (.readExact _) _) (arrived, ended)).1.2 = ended
      rw [poll_cutOff_readExact]
      split
      · rfl
      · rfl
    · rfl
  · rw [TcpClient.recvAndDump_of_not_pos hpos]
    rfl

variable {pf : Platform} {t : Task B} {head : RespHead} {arrived : List UInt8} {d : Completion B}

theorem ending_recvError (hflag : head.flag ≠ 0)
    (h : (poll cutOff (TcpClient.recvError head t) (arrived, [])).1.2.head? = some d) :
    Ending t head arrived d := by
  rw [TcpClient.recvError] at h
  split at h
  · obtain rfl := Option.some.inj h
    exact .custom _
  split at h
  · split at h
    · cases h
    · change (poll cutOff (act (.readExact _) _) (arrived, [])).1.2.head? = some d at h
      rw [poll_cutOff_readExact] at h
      split at h
      · obtain rfl := Option.some.inj h
        rw [TcpClient.setErrString]
        split
        · split
          · exact .failed _ (Or.inl hflag)
          · exact .custom _
        · exact .custom _
      · obtain rfl := Option.some.inj h
        exact .failed _ (Or.inl hflag)
  · cases h

/-- The end of a response that has been read. -/
theorem ending_finishTask {u : Task B} {msg : List UInt8}
    (h : (poll cutOff (TcpClient.finishTask head u msg) (arrived, [])).1.2.head? = some d) :
    (∃ t' : Task B, d = .errorHandled (t'.setRpcError .decode)) ∨
      ∃ v, d = .done v.setOk ∧ (v = u ∨ ∃ msg, v = (u.decodeResp msg).1) := by
  rw [TcpClient.finishTask] at h
  split at h
  · rcases hdecode : u.decodeResp msg with ⟨u', _ | _⟩
    · rw [hdecode] at h
      obtain rfl := Option.some.inj h
      exact Or.inl ⟨u', rfl⟩
    · rw [hdecode] at h
      obtain rfl := Option.some.inj h
      exact Or.inr ⟨u', rfl, Or.inr ⟨msg, by rw [hdecode]⟩⟩
  · obtain rfl := Option.some.inj h
    exact Or.inr ⟨u, rfl, Or.inl rfl⟩

theorem ending_recvTask
    (h : (poll cutOff (TcpClient.recvTask pf head t) (arrived, [])).1.2.head? = some d) :
    Ending t head arrived d := by
  rw [TcpClient.recvTask] at h
  split at h
  · rename_i hpos
    refine ending_recvError (fun hzero => ?_) h
    rw [hzero] at hpos
    cases hpos
  rename_i hpos
  have hflag : head.flag = 0 := by
    rw [UInt8.lt_iff_toNat_lt] at hpos
    exact UInt8.toNat_inj.mp (Nat.eq_zero_of_not_pos hpos)
  rw [poll_cutOff_recvMsg] at h
  split at h
  rotate_left
  · rename_i hshort
    obtain rfl := Option.some.inj h
    exact .failed _ (Or.inr (Nat.lt_of_not_le hshort))
  rename_i hmsg
  dsimp only at h
  split at h
  · rename_i hblob
    rcases hreserve : t.reserveRespBlob head.blobLen with ⟨t', _ | len⟩
    · rw [hreserve] at h
      change (poll cutOff (TcpClient.recvAndDump pf _)
        (_, [.errorHandled (t'.setRpcError .decode)])).1.2.head? = some d at h
      rw [ended_recvAndDump] at h
      obtain rfl := Option.some.inj h
      exact .undecoded t'
    · rw [hreserve] at h
      change (poll cutOff (act (.readExact len) _) _).1.2.head? = some d at h
      rw [poll_cutOff_readExact] at h
      split at h
      · rcases ending_finishTask h with ⟨t', rfl⟩ | ⟨v, rfl, hv⟩
        · exact .undecoded t'
        · exact .filled hflag hmsg hblob hreserve hv
      · obtain rfl := Option.some.inj h
        exact .cut hflag hmsg hblob hreserve
  · rename_i hblob
    rcases ending_finishTask h with ⟨t', rfl⟩ | ⟨v, rfl, hv⟩
    · exact .undecoded t'
    · exact .plain hblob hv

end Ending

/-! ## The buffer -/

section History

variable {heap : Heap} {A : Type}

/-- The buffer of a task under way. -/
def Task.respBlob (t : Task (FailoverTask (BlobTask heap A))) : RespBlob := t.body.inner.respBlob

variable [ClientTask A] {t t' : Task (FailoverTask (BlobTask heap A))}

@[simp] theorem respBlob_setRpcError (t : Task (FailoverTask (BlobTask heap A))) (e : RpcIntErr) :
    (t.setRpcError e).respBlob = t.respBlob := by
  simp only [Task.setRpcError, ClientTask.setRpcError, Task.respBlob]
  split <;> rfl

/-- After an error that is not retriable, the task is not retried. -/
theorem not_wantsRetry_decode (t : Task (FailoverTask (BlobTask heap A))) (retryLimit : ℕ) :
    (t.setRpcError .decode).body.wantsRetry retryLimit = false := by
  have hdecode : ¬ RpcIntErr.decode < .method := by decide
  simp [Task.setRpcError, ClientTask.setRpcError, FailoverTask.wantsRetry, hdecode]

/-- `reserve_resp_blob` of a task under way. -/
theorem reserveRespBlob_eq_some {size : Int32} {len : ℕ}
    (h : t.reserveRespBlob size = (t', some len)) :
    (t.respBlob.reserve heap size).2 = some len ∧
      t'.respBlob = (t.respBlob.reserve heap size).1 := by
  obtain ⟨rfl, hlen⟩ := Prod.mk.inj h
  exact ⟨hlen, rfl⟩

/-- An attempt that is retried: the buffer was handed out, if it came to that. -/
theorem Fate.reserves_of_retried {pf : Platform} {retryLimit : ℕ} {f : Fate}
    (h : f.ends pf t = some (.errorHandled t')) (hretry : t'.body.wantsRetry retryLimit = true) :
    RespBlob.Reserves heap t.respBlob f.reserved.toList t'.respBlob := by
  cases f with
  | unanswered e =>
    obtain rfl := Completion.errorHandled.inj (Option.some.inj h)
    rw [respBlob_setRpcError]
    exact .nil _
  | answered head arrived =>
    have hending := ending_recvTask h
    generalize hd : Completion.errorHandled t' = d at hending
    cases hending with
    | failed e hfail =>
      obtain rfl := Completion.errorHandled.inj hd
      have hnone : (Fate.answered head arrived).reserved = none := by
        refine if_neg fun hreached => ?_
        rcases hfail with hflag | hshort
        · exact hflag hreached.1
        · exact absurd hreached.2.1 (Nat.not_le.mpr hshort)
      rw [hnone, respBlob_setRpcError]
      exact .nil _
    | custom e =>
      obtain rfl := Completion.errorHandled.inj hd
      cases hretry
    | undecoded u =>
      obtain rfl := Completion.errorHandled.inj hd
      rw [not_wantsRetry_decode] at hretry
      cases hretry
    | cut hflag hmsg hblob hreserve =>
      obtain rfl := Completion.errorHandled.inj hd
      obtain ⟨hlen, hafter⟩ := reserveRespBlob_eq_some hreserve
      have hsome : (Fate.answered head arrived).reserved = some head.blobLen :=
        if_pos ⟨hflag, hmsg, hblob⟩
      rw [hsome, respBlob_setRpcError, hafter]
      exact .cons hblob (Option.isSome_iff_exists.mpr ⟨_, hlen⟩) (.nil _)
    | filled => cases hd
    | plain => cases hd

/-- An attempt that is accepted: the buffer holds its blob, or was not touched. -/
theorem Fate.respBlob_of_done {pf : Platform} {f : Fate} (h : f.ends pf t = some (.done t')) :
    (0 < f.blobLen ∧ f.reserved = some f.blobLen ∧
        ∃ b, RespBlob.Reserves heap t.respBlob [f.blobLen] b ∧ t'.respBlob = b.fill f.blob) ∨
      ¬ 0 < f.blobLen ∧ f.reserved = none ∧ f.blob = [] ∧ t'.respBlob = t.respBlob := by
  cases f with
  | unanswered e => cases h
  | answered head arrived =>
    have hending := ending_recvTask h
    generalize hd : Completion.done t' = d at hending
    cases hending with
    | failed => cases hd
    | custom => cases hd
    | undecoded => cases hd
    | cut => cases hd
    | @filled t₁ u len hflag hmsg hblob hreserve hu =>
      obtain rfl := Completion.done.inj hd
      obtain ⟨hlen, hafter⟩ := reserveRespBlob_eq_some hreserve
      obtain ⟨rfl, -⟩ := RespBlob.content_reserve hblob hlen
      refine Or.inl ⟨hblob, if_pos ⟨hflag, hmsg, hblob⟩, _,
        .cons hblob (Option.isSome_iff_exists.mpr ⟨_, hlen⟩) (.nil _), ?_⟩
      change u.setOk.respBlob = (t.respBlob.reserve heap head.blobLen).1.fill _
      rw [← hafter]
      rcases hu with rfl | ⟨msg, rfl⟩
      · rfl
      · rfl
    | plain hblob hu =>
      obtain rfl := Completion.done.inj hd
      refine Or.inr ⟨hblob, if_neg fun hreached => hblob hreached.2.2, ?_, ?_⟩
      · have hzero : head.blobLen.toNatClampNeg = 0 :=
          Nat.eq_zero_of_not_pos fun hpos => hblob ((Int32.toNatClampNeg_pos_iff _).mp hpos)
        rw [Fate.blob, hzero, List.take_zero]
      · rcases hu with rfl | ⟨msg, rfl⟩
        · rfl
        · rfl

/-- The lengths asked for in these attempts. -/
def reservedIn (as : List Trial) : List Int32 := as.filterMap (·.fate.reserved)

/-- Attempts that are all retried. -/
theorem reserves_retried {pf : Platform} {retryLimit : ℕ} {as : List Trial}
    (h : retried pf retryLimit t as = some t') :
    RespBlob.Reserves heap t.respBlob (reservedIn as) t'.respBlob := by
  induction as generalizing t with
  | nil =>
    obtain rfl := Option.some.inj h
    exact .nil _
  | cons a as ih =>
    rw [retried] at h
    split at h
    · rename_i t₁ hends
      split at h
      · rename_i hretry
        have hfirst := Fate.reserves_of_retried hends hretry
        have hlengths : reservedIn (a :: as) = a.fate.reserved.toList ++ reservedIn as := by
          rcases hreserved : a.fate.reserved with _ | n
          · simp [reservedIn, hreserved]
          · simp [reservedIn, hreserved]
        rw [hlengths]
        exact hfirst.append (ih h)
      · cases h
    · cases h

/-- **The blob of an accepted response.** A task that starts without a blob, after any
number of attempts that were retried and one that was accepted: its buffer holds
exactly the blob of the response accepted if and only if that response has a blob or
no earlier attempt got as far as `reserve_resp_blob`, and the lengths asked for fit
the buffer. -/
theorem respBlob_exact_iff {pf : Platform} {retryLimit : ℕ} {t t' : Task (BlobTask heap A)}
    (hempty : t.body.respBlob.IsEmpty) {retry maxRetries : ℕ} {as : List Trial} {a : Trial}
    (h : accepted pf retryLimit (t.wrap 0 0 retry maxRetries) as a = some t') :
    t'.body.respBlob.Holds a.fate.blob ↔
      (0 < a.fate.blobLen ∨ reservedIn as = []) ∧
        t.body.respBlob.Fits heap ((reservedIn (as ++ [a])).map Int32.toNatClampNeg) := by
  obtain ⟨t₁, hretried, hlast⟩ := Option.bind_eq_some_iff.mp h
  have hreserves : RespBlob.Reserves heap t.body.respBlob (reservedIn as) t₁.respBlob :=
    reserves_retried hretried
  split at hlast
  · rename_i t₂ hdone
    obtain rfl := Option.some.inj hlast
    have hlengths : reservedIn (as ++ [a]) = reservedIn as ++ a.fate.reserved.toList := by
      rcases hreserved : a.fate.reserved with _ | n
      · simp [reservedIn, hreserved]
      · simp [reservedIn, hreserved]
    change t₂.respBlob.Holds _ ↔ _
    rcases Fate.respBlob_of_done hdone with
      ⟨hblob, hreserved, b, hlast, hafter⟩ | ⟨hblob, hreserved, hnil, hafter⟩
    · -- the buffer was made its own
      have hall := hreserves.append hlast
      have hcontent := RespBlob.content_fill (hlast.content_ne_nil (List.cons_ne_nil _ _)) a.fate.blob
      rw [hlengths, hreserved, Option.toList_some, ← hall.fits_iff hempty.inBounds hempty.2,
        hafter, RespBlob.Holds, hcontent, RespBlob.overrun_fill]
      exact ⟨fun hholds => ⟨Or.inl hblob, hholds.2⟩, fun hfits => ⟨rfl, hfits.2⟩⟩
    · -- nobody looked at the buffer
      rw [hlengths, hreserved, Option.toList_none, List.append_nil,
        ← hreserves.fits_iff hempty.inBounds hempty.2, hafter, hnil]
      change t₁.respBlob.Holds [] ↔ _
      by_cases hfirst : reservedIn as = []
      · rw [hfirst] at hreserves
        have hsame : t₁.respBlob = t.body.respBlob := by
          generalize t₁.respBlob = b at hreserves
          cases hreserves
          rfl
        have hcontent : t₁.respBlob.content = [] := by
          rw [hsame]
          exact hempty.1
        exact ⟨fun hholds => ⟨Or.inr hfirst, hholds.2⟩, fun hfits => ⟨hcontent, hfits.2⟩⟩
      · refine iff_of_false (fun hholds => ?_) fun hfits => ?_
        · exact hreserves.content_ne_nil hfirst hholds.1
        · rcases hfits.1 with hpos | hnone
          · exact hblob hpos
          · exact hfirst hnone
  · cases hlast

end History

/-! ### Two histories -/

/-- An allocator that gives what it is asked for. -/
def Heap.exact : Heap where
  withCapacity n := n
  grow _ n := n
  alloc n := some n.toNatClampNeg
  le_withCapacity := Nat.le_refl
  le_grow _ n := Nat.le_refl n
  le_alloc := fun h => Nat.le_of_eq (Option.some.inj h)

/-- A task whose `resp_blob` is `None`. -/
def noBlob : Task (BlobTask Heap.exact APIClientReq) :=
  ⟨0, 0, ⟨.new "file.read" [1], .optionVec none⟩⟩

/-- A connection that fails in the blob of its response: two bytes of four arrive. -/
def cutInBlob : Trial := ⟨1, 0, 0, .answered (RespHead.new 0 1 0 4) [170, 187]⟩

/-- The second attempt brings a blob of its own. -/
theorem respBlob_exact_retried :
    ∃ t', accepted ⟨fun _ => true, true⟩ 3 (noBlob.wrap 0 0 0 0) [cutInBlob]
        ⟨1, 1, 0, .answered (RespHead.new 0 1 0 2) [7, 8]⟩ = some t' ∧
      t'.body.respBlob.Holds [7, 8] := by
  have hrun : (accepted ⟨fun _ => true, true⟩ 3 (noBlob.wrap 0 0 0 0) [cutInBlob]
      ⟨1, 1, 0, .answered (RespHead.new 0 1 0 2) [7, 8]⟩).isSome = true := by decide +kernel
  obtain ⟨t', ht'⟩ := Option.isSome_iff_exists.mp hrun
  refine ⟨t', ht', (respBlob_exact_iff (by decide) ht').mpr ⟨Or.inl (by decide), ?_⟩⟩
  have hfits : 2 ≤ Vec.capacityFor Heap.exact 4 4 2 := by decide
  exact ⟨hfits, trivial⟩

/-- The second attempt brings no blob: the length of the first remains. -/
theorem respBlob_stale :
    ∃ t', accepted ⟨fun _ => true, true⟩ 3 (noBlob.wrap 0 0 0 0) [cutInBlob]
        ⟨1, 1, 0, .answered (RespHead.new 0 1 0 0) []⟩ = some t' ∧
      t'.body.respBlob.content.length = 4 ∧ ¬ t'.body.respBlob.Holds [] := by
  have hrun : (accepted ⟨fun _ => true, true⟩ 3 (noBlob.wrap 0 0 0 0) [cutInBlob]
      ⟨1, 1, 0, .answered (RespHead.new 0 1 0 0) []⟩).any (fun t' =>
        decide (t'.body.respBlob.content.length = 4 ∧ ¬ t'.body.respBlob.Holds [])) = true := by
    decide +kernel
  obtain ⟨t', ht', htest⟩ := (Option.any_eq_true _ _).mp hrun
  exact ⟨t', ht', of_decide_eq_true htest⟩

end RazorRpc
