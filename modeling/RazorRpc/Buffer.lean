import RazorRpc.Proto

/-!
# Buffers for blobs (`stream/src/buffer.rs`)

A response blob is read into a buffer that belongs to the task. `AllocateBuf`
adapts four types of buffers: `reserve` makes one as long as the blob and hands out
all of it as a slice to write to.

What a slice holds before it has been written is not specified: it may be
uninitialised, or what a read that failed has left there. Such a byte is `none`.
-/

namespace RazorRpc

/-- What the allocators decide: how much they give for what is asked. -/
structure Heap where
  /-- the capacity of `Vec::with_capacity` -/
  withCapacity : ℕ → ℕ
  /-- the capacity of a full `Vec` of some capacity that grows to hold so much -/
  grow : ℕ → ℕ → ℕ
  /-- the capacity of `io_buffer::Buffer::alloc`, if it succeeds; it is asked for positive
  lengths only -/
  alloc : Int32 → Option ℕ
  le_withCapacity : ∀ n, n ≤ withCapacity n
  le_grow : ∀ capacity n, n ≤ grow capacity n
  le_alloc : ∀ {n capacity}, alloc n = some capacity → n.toNatClampNeg ≤ capacity

/-- `blob_len as usize`. -/
def asUsize (n : Int32) : ℕ := (n.toInt % 2 ^ 64).toNat

theorem asUsize_of_pos {n : Int32} (h : 0 < n) : asUsize n = n.toNatClampNeg := by
  have hpos : 0 < n.toInt := Int32.lt_iff_toInt_lt.mp h
  have hlt := n.toInt_lt
  rw [asUsize, Int.emod_eq_of_lt hpos.le (by omega)]
  rfl

/-- The bytes of a buffer that was made `n` long. -/
def setLen (bytes : List (Option UInt8)) (n : ℕ) : List (Option UInt8) :=
  bytes.take n ++ List.replicate (n - bytes.length) none

/-- The bytes of a buffer handed out as a slice. -/
def handedOut (bytes : List (Option UInt8)) : List (Option UInt8) := bytes.map fun _ => none

@[simp] theorem length_setLen (bytes : List (Option UInt8)) (n : ℕ) :
    (setLen bytes n).length = n := by
  rw [setLen, List.length_append, List.length_take, List.length_replicate]
  omega

theorem handedOut_eq (bytes : List (Option UInt8)) :
    handedOut bytes = List.replicate bytes.length none := List.map_const'

/-! ## `Vec<u8>` -/

/-- `Vec<u8>`. -/
structure Vec where
  bytes : List (Option UInt8)
  capacity : ℕ
  /-- ghost: `set_len` once went beyond the capacity, which is undefined -/
  overrun : Bool
  deriving DecidableEq

namespace Vec

/-- `Vec::reserve`: room for `additional` bytes after those there are. -/
def reserve (heap : Heap) (v : Vec) (additional : ℕ) : Vec :=
  if v.bytes.length + additional ≤ v.capacity then v
  else { v with capacity := heap.grow v.capacity (v.bytes.length + additional) }

/-- `Vec::set_len`. -/
def setLen (v : Vec) (n : ℕ) : Vec :=
  { v with bytes := RazorRpc.setLen v.bytes n, overrun := v.overrun || decide (v.capacity < n) }

/-- `AllocateBuf::reserve` for `Vec<u8>`, and what `Option<Vec<u8>>` does with the
vector it has. -/
def fit (heap : Heap) (v : Vec) (blobLen : ℕ) : Vec :=
  if v.bytes.length ≠ blobLen then
    let v := if v.capacity < blobLen then v.reserve heap (blobLen - v.capacity) else v
    v.setLen blobLen
  else v

/-- The capacity after `fit`. -/
def capacityFor (heap : Heap) (length capacity blobLen : ℕ) : ℕ :=
  if blobLen ≤ capacity then capacity
  else if length + (blobLen - capacity) ≤ capacity then capacity
  else heap.grow capacity (length + (blobLen - capacity))

/-- The lengths asked for one after the other stay within the capacity. -/
def Fits (heap : Heap) : (length capacity : ℕ) → List ℕ → Prop
  | _, _, [] => True
  | length, capacity, n :: ns =>
    n ≤ capacityFor heap length capacity n ∧ Fits heap n (capacityFor heap length capacity n) ns

theorem length_fit (heap : Heap) (v : Vec) (n : ℕ) : (v.fit heap n).bytes.length = n := by
  rw [fit]
  split
  · exact length_setLen _ _
  · rename_i hlen
    exact Decidable.not_not.mp hlen

variable {heap : Heap} {v : Vec}

/-- What `fit` does to a vector within its capacity. -/
theorem capacity_fit (heap : Heap) (hlen : v.bytes.length ≤ v.capacity) (n : ℕ) :
    (v.fit heap n).capacity = capacityFor heap v.bytes.length v.capacity n ∧
      (v.fit heap n).overrun =
        (v.overrun || decide (capacityFor heap v.bytes.length v.capacity n < n)) := by
  by_cases hne : v.bytes.length = n
  · have hle : n ≤ v.capacity := hne ▸ hlen
    have hroom : ¬ v.capacity < n := Nat.not_lt.mpr hle
    rw [fit, if_neg (Decidable.not_not.mpr hne), capacityFor, if_pos hle, decide_eq_false hroom,
      Bool.or_false]
    exact ⟨rfl, rfl⟩
  · by_cases hle : n ≤ v.capacity
    · rw [fit, if_pos hne, if_neg (Nat.not_lt.mpr hle), capacityFor, if_pos hle]
      exact ⟨rfl, rfl⟩
    · rw [fit, if_pos hne, if_pos (Nat.lt_of_not_le hle), capacityFor, if_neg hle, reserve]
      split
      · exact ⟨rfl, rfl⟩
      · exact ⟨rfl, rfl⟩

/-- An overrun is not forgotten. -/
theorem overrun_fit (h : v.overrun = true) (n : ℕ) : (v.fit heap n).overrun = true := by
  rw [fit]
  split
  · split
    · rw [reserve]
      split
      · exact Bool.or_eq_true_iff.mpr (Or.inl h)
      · exact Bool.or_eq_true_iff.mpr (Or.inl h)
    · exact Bool.or_eq_true_iff.mpr (Or.inl h)
  · exact h

/-- A vector is overrun by the first length that does not fit. -/
theorem fits_fit (hlen : v.bytes.length ≤ v.capacity) (hsound : v.overrun = false)
    {n : ℕ} (ns : List ℕ) :
    ((v.fit heap n).overrun = false → (v.fit heap n).bytes.length ≤ (v.fit heap n).capacity ∧
      (Fits heap v.bytes.length v.capacity (n :: ns) ↔
        Fits heap (v.fit heap n).bytes.length (v.fit heap n).capacity ns)) ∧
    ((v.fit heap n).overrun = true → ¬ Fits heap v.bytes.length v.capacity (n :: ns)) := by
  obtain ⟨hcapacity, hoverrun⟩ := capacity_fit heap hlen n
  rw [hsound, Bool.false_or] at hoverrun
  rw [length_fit, hcapacity, hoverrun]
  constructor
  · intro h
    have hle : n ≤ capacityFor heap v.bytes.length v.capacity n :=
      Nat.not_lt.mp (of_decide_eq_false h)
    exact ⟨hle, and_iff_right hle⟩
  · intro h hfits
    exact absurd hfits.1 (Nat.not_le.mpr (of_decide_eq_true h))

/-- A vector that is handed out. -/
def handOut (v : Vec) : Vec := { v with bytes := handedOut v.bytes }

/-- The slice handed out is written. -/
def fill (v : Vec) (bs : List UInt8) : Vec := { v with bytes := bs.map some }

end Vec

/-! ## `io_buffer::Buffer` -/

/-- `io_buffer::Buffer`. -/
structure Buffer where
  bytes : List (Option UInt8)
  capacity : ℕ
  deriving DecidableEq

namespace Buffer

/-- `AllocateBuf::reserve` for `io_buffer::Buffer`, and what `Option<Buffer>` does with
the buffer it has; `none` when it is too small. -/
def fit (b : Buffer) (blobLen : ℕ) : Option Buffer :=
  if b.bytes.length ≠ blobLen then
    if b.capacity < blobLen then none
    else some { b with bytes := setLen b.bytes blobLen }
  else some b

theorem length_fit {b b' : Buffer} {n : ℕ} (h : b.fit n = some b') : b'.bytes.length = n := by
  rw [fit] at h
  split at h
  · split at h
    · cases h
    · cases h
      exact length_setLen _ _
  · rename_i hlen
    cases h
    exact Decidable.not_not.mp hlen

def handOut (b : Buffer) : Buffer := { b with bytes := handedOut b.bytes }

def fill (b : Buffer) (bs : List UInt8) : Buffer := { b with bytes := bs.map some }

end Buffer

/-! ## The buffer of a task -/

/-- A buffer of one of the types that implement `AllocateBuf`. -/
inductive RespBlob : Type where
  | optionVec (v : Option Vec)
  | vec (v : Vec)
  | optionBuffer (b : Option Buffer)
  | buffer (b : Buffer)
  deriving DecidableEq

namespace RespBlob

/-- `AllocateBuf::reserve`: the buffer afterwards, and the length of the slice. -/
def reserve (heap : Heap) : RespBlob → Int32 → RespBlob × Option ℕ
  | optionVec (some v), blobLen =>
    let v := v.fit heap (asUsize blobLen)
    (optionVec (some v.handOut), some v.bytes.length)
  | optionVec none, blobLen =>
    let v : Vec := ⟨[], heap.withCapacity (asUsize blobLen), false⟩
    let v := v.setLen (asUsize blobLen)
    (optionVec (some v.handOut), some v.bytes.length)
  | vec v, blobLen =>
    let v := v.fit heap (asUsize blobLen)
    (vec v.handOut, some v.bytes.length)
  | optionBuffer (some b), blobLen =>
    match b.fit (asUsize blobLen) with
    | some b => (optionBuffer (some b.handOut), some b.bytes.length)
    | none => (optionBuffer (some b), none)
  | optionBuffer none, blobLen =>
    match heap.alloc blobLen with
    | some capacity =>
      let b : Buffer := ⟨List.replicate blobLen.toNatClampNeg none, capacity⟩
      (optionBuffer (some b.handOut), some b.bytes.length)
    | none => (optionBuffer none, none)
  | buffer b, blobLen =>
    match b.fit (asUsize blobLen) with
    | some b => (buffer b.handOut, some b.bytes.length)
    | none => (buffer b, none)

/-- The slice handed out is written. -/
def fill : RespBlob → List UInt8 → RespBlob
  | optionVec v, bs => optionVec (v.map (·.fill bs))
  | vec v, bs => vec (v.fill bs)
  | optionBuffer b, bs => optionBuffer (b.map (·.fill bs))
  | buffer b, bs => buffer (b.fill bs)

/-- What the buffer holds; nothing if it is `None`. -/
def content : RespBlob → List (Option UInt8)
  | optionVec v => (v.map Vec.bytes).getD []
  | vec v => v.bytes
  | optionBuffer b => (b.map Buffer.bytes).getD []
  | buffer b => b.bytes

/-- A vector was overrun. -/
def overrun : RespBlob → Bool
  | optionVec v => (v.map Vec.overrun).getD false
  | vec v => v.overrun
  | _ => false

/-- `None`, or an empty buffer. -/
def IsEmpty (b : RespBlob) : Prop := b.content = [] ∧ b.overrun = false

/-- The buffer holds exactly these bytes. -/
def Holds (b : RespBlob) (bs : List UInt8) : Prop := b.content = bs.map some ∧ b.overrun = false

instance (b : RespBlob) : Decidable b.IsEmpty := inferInstanceAs (Decidable (_ ∧ _))

instance (b : RespBlob) (bs : List UInt8) : Decidable (b.Holds bs) :=
  inferInstanceAs (Decidable (_ ∧ _))

/-- Lengths that can be asked for one after the other: a vector stays within its
capacity. -/
def Fits (heap : Heap) : RespBlob → List ℕ → Prop
  | optionVec (some v), ns | vec v, ns => Vec.Fits heap v.bytes.length v.capacity ns
  | optionVec none, n :: ns => Vec.Fits heap n (heap.withCapacity n) ns
  | _, _ => True

variable {heap : Heap} {b b' : RespBlob} {n : Int32} {len : ℕ}

/-- The slice has the length asked for, and nothing in it is specified. -/
theorem content_reserve (hpos : 0 < n) (h : (b.reserve heap n).2 = some len) :
    len = n.toNatClampNeg ∧ (b.reserve heap n).1.content = List.replicate len none := by
  have hsize := asUsize_of_pos hpos
  rcases b with (_ | v) | v | (_ | b) | b
  · obtain rfl := Option.some.inj h
    exact ⟨(length_setLen _ _).trans hsize, handedOut_eq _⟩
  · obtain rfl := Option.some.inj h
    exact ⟨(v.length_fit heap _).trans hsize, handedOut_eq _⟩
  · obtain rfl := Option.some.inj h
    exact ⟨(v.length_fit heap _).trans hsize, handedOut_eq _⟩
  · simp only [reserve] at h ⊢
    rcases halloc : heap.alloc n with _ | capacity
    · rw [halloc] at h
      cases h
    · rw [halloc] at h
      obtain rfl := Option.some.inj h
      exact ⟨List.length_replicate, handedOut_eq _⟩
  · simp only [reserve] at h ⊢
    rcases hfit : b.fit (asUsize n) with _ | b'
    · rw [hfit] at h
      cases h
    · rw [hfit] at h
      obtain rfl := Option.some.inj h
      exact ⟨(Buffer.length_fit hfit).trans hsize, handedOut_eq _⟩
  · simp only [reserve] at h ⊢
    rcases hfit : b.fit (asUsize n) with _ | b'
    · rw [hfit] at h
      cases h
    · rw [hfit] at h
      obtain rfl := Option.some.inj h
      exact ⟨(Buffer.length_fit hfit).trans hsize, handedOut_eq _⟩

/-- A slice that was handed out is written. -/
theorem content_fill (h : b.content ≠ []) (bs : List UInt8) : (b.fill bs).content = bs.map some := by
  rcases b with (_ | v) | v | (_ | b) | b
  · exact absurd rfl h
  · rfl
  · rfl
  · exact absurd rfl h
  · rfl
  · rfl

theorem overrun_fill (b : RespBlob) (bs : List UInt8) : (b.fill bs).overrun = b.overrun := by
  rcases b with (_ | v) | v | (_ | b) | b <;> rfl

/-- A vector is within its capacity. -/
def InBounds : RespBlob → Prop
  | optionVec (some v) | vec v => v.bytes.length ≤ v.capacity
  | _ => True

theorem IsEmpty.inBounds (h : b.IsEmpty) : b.InBounds := by
  rcases b with (_ | v) | v | (_ | b) | b
  · trivial
  · have hnil : v.bytes = [] := h.1
    change v.bytes.length ≤ v.capacity
    rw [hnil]
    exact Nat.zero_le _
  · have hnil : v.bytes = [] := h.1
    change v.bytes.length ≤ v.capacity
    rw [hnil]
    exact Nat.zero_le _
  · trivial
  · trivial
  · trivial

/-- A slice of the length `n` was handed out. -/
theorem fits_reserve (hbounds : b.InBounds) (hsound : b.overrun = false) (hpos : 0 < n)
    (h : (b.reserve heap n).2.isSome = true) (ns : List ℕ) :
    ((b.reserve heap n).1.overrun = false → (b.reserve heap n).1.InBounds ∧
      (b.Fits heap (n.toNatClampNeg :: ns) ↔ (b.reserve heap n).1.Fits heap ns)) ∧
    ((b.reserve heap n).1.overrun = true → ¬ b.Fits heap (n.toNatClampNeg :: ns)) := by
  have hsize := asUsize_of_pos hpos
  -- handing out does not change the length
  have hout : ∀ v : Vec, v.handOut.bytes.length = v.bytes.length := fun v => List.length_map _
  have hvec : ∀ v : Vec, v.bytes.length ≤ v.capacity → v.overrun = false →
      ((v.fit heap (asUsize n)).handOut.overrun = false →
        (v.fit heap (asUsize n)).handOut.bytes.length ≤ (v.fit heap (asUsize n)).handOut.capacity ∧
        (Vec.Fits heap v.bytes.length v.capacity (n.toNatClampNeg :: ns) ↔
          Vec.Fits heap (v.fit heap (asUsize n)).handOut.bytes.length
            (v.fit heap (asUsize n)).handOut.capacity ns)) ∧
      ((v.fit heap (asUsize n)).handOut.overrun = true →
        ¬ Vec.Fits heap v.bytes.length v.capacity (n.toNatClampNeg :: ns)) := by
    intro v hlen hsound
    rw [hout, ← hsize]
    exact Vec.fits_fit hlen hsound ns
  rcases b with (_ | v) | v | (_ | b) | b
  · have hle := heap.le_withCapacity (asUsize n)
    have hlen : (RazorRpc.setLen [] (asUsize n)).length = asUsize n := length_setLen _ _
    refine ⟨fun _ => ⟨?_, ?_⟩, fun hover => ?_⟩
    · change (handedOut _).length ≤ heap.withCapacity (asUsize n)
      rw [handedOut, List.length_map, Vec.setLen, hlen]
      exact hle
    · change Vec.Fits heap n.toNatClampNeg (heap.withCapacity n.toNatClampNeg) ns ↔
        Vec.Fits heap (handedOut _).length (heap.withCapacity (asUsize n)) ns
      rw [handedOut, List.length_map, Vec.setLen, hlen, hsize]
    · change (false || decide (heap.withCapacity (asUsize n) < asUsize n)) = true at hover
      rw [Bool.false_or, decide_eq_true_iff] at hover
      omega
  · exact hvec v hbounds hsound
  · exact hvec v hbounds hsound
  · simp only [reserve] at h ⊢
    rcases halloc : heap.alloc n with _ | capacity
    · rw [halloc] at h
      cases h
    · exact ⟨fun _ => ⟨trivial, Iff.rfl⟩, Bool.noConfusion⟩
  · simp only [reserve] at h ⊢
    rcases hfit : b.fit (asUsize n) with _ | b'
    · rw [hfit] at h
      cases h
    · exact ⟨fun _ => ⟨trivial, Iff.rfl⟩, Bool.noConfusion⟩
  · simp only [reserve] at h ⊢
    rcases hfit : b.fit (asUsize n) with _ | b'
    · rw [hfit] at h
      cases h
    · exact ⟨fun _ => ⟨trivial, Iff.rfl⟩, Bool.noConfusion⟩

theorem overrun_reserve (h : b.overrun = true) (n : Int32) :
    (b.reserve heap n).1.overrun = true := by
  rcases b with (_ | v) | v | (_ | b) | b
  · cases h
  · exact Vec.overrun_fit h _
  · exact Vec.overrun_fit h _
  · cases h
  · cases h
  · cases h

/-- Slices of these lengths were handed out, one after the other. -/
inductive Reserves (heap : Heap) : RespBlob → List Int32 → RespBlob → Prop
  | nil (b : RespBlob) : Reserves heap b [] b
  | cons {b b' : RespBlob} {n : Int32} {ns : List Int32} (hpos : 0 < n)
      (h : (b.reserve heap n).2.isSome = true) :
      Reserves heap (b.reserve heap n).1 ns b' → Reserves heap b (n :: ns) b'

namespace Reserves

variable {ns : List Int32}

theorem append {ms : List Int32} {b'' : RespBlob} (h : Reserves heap b ns b')
    (h' : Reserves heap b' ms b'') : Reserves heap b (ns ++ ms) b'' := by
  induction h with
  | nil b => exact h'
  | cons hpos hsome _ ih => exact .cons hpos hsome (ih h')

theorem overrun (h : Reserves heap b ns b') (hover : b.overrun = true) : b'.overrun = true := by
  induction h with
  | nil b => exact hover
  | cons hpos hsome _ ih => exact ih (overrun_reserve hover _)

/-- Nothing is overrun exactly if all lengths fit. -/
theorem fits_iff (h : Reserves heap b ns b') (hbounds : b.InBounds) (hsound : b.overrun = false) :
    b'.overrun = false ↔ b.Fits heap (ns.map Int32.toNatClampNeg) := by
  induction h with
  | nil b =>
    refine iff_of_true hsound ?_
    rcases b with (_ | v) | v | (_ | b) | b <;> trivial
  | @cons b b' n ns hpos hsome hrest ih =>
    obtain ⟨hfit, hover⟩ := fits_reserve hbounds hsound hpos hsome (ns.map Int32.toNatClampNeg)
    rcases hnext : (b.reserve heap n).1.overrun with _ | _
    · obtain ⟨hbounds', hiff⟩ := hfit hnext
      rw [List.map_cons, hiff]
      exact ih hbounds' hnext
    · rw [hrest.overrun hnext]
      exact iff_of_false Bool.noConfusion (hover hnext)

/-- What was handed out last is as long as it was asked for. -/
theorem content_ne_nil (h : Reserves heap b ns b') (hne : ns ≠ []) : b'.content ≠ [] := by
  induction h with
  | nil b => exact absurd rfl hne
  | @cons b b' n ns hpos hsome hrest ih =>
    cases ns with
    | cons m ns => exact ih (List.cons_ne_nil _ _)
    | nil =>
      cases hrest
      obtain ⟨len, hlen⟩ := Option.isSome_iff_exists.mp hsome
      obtain ⟨rfl, hcontent⟩ := content_reserve hpos hlen
      rw [hcontent]
      refine List.length_pos_iff.mp ?_
      rw [List.length_replicate]
      exact (Int32.toNatClampNeg_pos_iff n).mpr hpos

end Reserves

end RespBlob

/-! ## Room enough

`Vec::reserve(additional)` counts from the length of a vector, and is given what is
missing to its capacity. -/

/-- How `Vec::reserve` grows. -/
def vecGrow (capacity n : ℕ) : ℕ := max (max (2 * capacity) n) 8

/-- A vector that `reserve` makes large enough for `n` bytes. -/
def Vec.HasRoom (v : Vec) (n : ℕ) : Prop :=
  n ≤ v.capacity ∨ v.bytes.length = v.capacity ∨
    2 * v.capacity < v.bytes.length + n ∧ n ≤ max (2 * v.capacity) 8

theorem Vec.le_capacity_fit_iff {heap : Heap} (hgrow : heap.grow = vecGrow) {v : Vec}
    (hlen : v.bytes.length ≤ v.capacity) (n : ℕ) :
    n ≤ (v.fit heap n).capacity ↔ v.HasRoom n := by
  rw [(capacity_fit heap hlen n).1, capacityFor, HasRoom]
  by_cases hle : n ≤ v.capacity
  · rw [if_pos hle]
    exact iff_of_true hle (Or.inl hle)
  · rw [if_neg hle]
    by_cases hroom : v.bytes.length + (n - v.capacity) ≤ v.capacity
    · -- there is room after the bytes, and nothing grows
      rw [if_pos hroom]
      omega
    · rw [if_neg hroom, hgrow, vecGrow]
      omega

namespace RespBlob

def capacity : RespBlob → ℕ
  | optionVec v => (v.map Vec.capacity).getD 0
  | vec v => v.capacity
  | optionBuffer b => (b.map Buffer.capacity).getD 0
  | buffer b => b.capacity

/-- What `reserve` promises: a slice of the length asked for, within the capacity,
or the buffer as it was. -/
def ReserveSound (heap : Heap) (b : RespBlob) (blobLen : Int32) : Prop :=
  match b.reserve heap blobLen with
  | (b', some len) => len = blobLen.toNatClampNeg ∧ len ≤ b'.capacity
  | (b', none) => b' = b

def HasRoom : RespBlob → ℕ → Prop
  | optionVec (some v), n | vec v, n => v.HasRoom n
  | _, _ => True

theorem reserveSound_vec_iff {heap : Heap} (hgrow : heap.grow = vecGrow) {v : Vec}
    (hlen : v.bytes.length ≤ v.capacity) {blobLen : Int32} (hpos : 0 < blobLen) :
    (v.fit heap (asUsize blobLen)).bytes.length = blobLen.toNatClampNeg ∧
        (v.fit heap (asUsize blobLen)).bytes.length ≤ (v.fit heap (asUsize blobLen)).capacity ↔
      v.HasRoom blobLen.toNatClampNeg := by
  rw [Vec.length_fit, asUsize_of_pos hpos, Vec.le_capacity_fit_iff hgrow hlen]
  exact and_iff_right rfl

theorem reserveSound_buffer {b b' : Buffer} (hlen : b.bytes.length ≤ b.capacity)
    {blobLen : Int32} (hpos : 0 < blobLen) (h : b.fit (asUsize blobLen) = some b') :
    b'.bytes.length = blobLen.toNatClampNeg ∧ b'.bytes.length ≤ b'.capacity := by
  refine ⟨(Buffer.length_fit h).trans (asUsize_of_pos hpos), ?_⟩
  rw [Buffer.length_fit h]
  rw [Buffer.fit] at h
  split at h
  · split at h
    · cases h
    · rename_i hroom
      cases h
      exact Nat.not_lt.mp hroom
  · rename_i hne
    cases h
    exact Decidable.not_not.mp hne ▸ hlen

/-- **A buffer is made large enough exactly when it has room.** That is always so
of a `Buffer` and of `None`. A `Vec` has room if the blob fits its capacity, if it is
full, or if what is missing to the capacity goes beyond it, counted from the length,
and doubling is enough. -/
theorem reserveSound_iff {heap : Heap} (hgrow : heap.grow = vecGrow) {b : RespBlob}
    (hlen : b.content.length ≤ b.capacity) {blobLen : Int32} (hpos : 0 < blobLen) :
    b.ReserveSound heap blobLen ↔ b.HasRoom blobLen.toNatClampNeg := by
  rcases b with (_ | v) | v | (_ | b) | b
  · refine iff_of_true ⟨(length_setLen _ _).trans (asUsize_of_pos hpos), ?_⟩ trivial
    rw [Vec.setLen, length_setLen]
    exact heap.le_withCapacity _
  · exact reserveSound_vec_iff hgrow hlen hpos
  · exact reserveSound_vec_iff hgrow hlen hpos
  · refine iff_of_true ?_ trivial
    rw [ReserveSound, reserve]
    rcases halloc : heap.alloc blobLen with _ | capacity
    · exact rfl
    · refine ⟨List.length_replicate, ?_⟩
      rw [List.length_replicate]
      exact heap.le_alloc halloc
  · refine iff_of_true ?_ trivial
    rw [ReserveSound, reserve]
    rcases hfit : b.fit (asUsize blobLen) with _ | b'
    · exact rfl
    · exact reserveSound_buffer hlen hpos hfit
  · refine iff_of_true ?_ trivial
    rw [ReserveSound, reserve]
    rcases hfit : b.fit (asUsize blobLen) with _ | b'
    · exact rfl
    · exact reserveSound_buffer hlen hpos hfit

/-- An allocator that gives what it is asked for, and grows as `Vec` does. -/
def stdHeap : Heap where
  withCapacity n := n
  grow := vecGrow
  alloc n := some n.toNatClampNeg
  le_withCapacity := Nat.le_refl
  le_grow _ _ := (Nat.le_max_right _ _).trans (Nat.le_max_left _ _)
  le_alloc h := (Option.some.inj h).le

/-- A full vector of 16 bytes is made to hold 100. -/
theorem reserveSound_full :
    (vec ⟨List.replicate 16 none, 16, false⟩).ReserveSound stdHeap 100 :=
  (reserveSound_iff rfl (by decide) (by decide)).mpr (Or.inr (Or.inl (by decide)))

/-- An empty vector of capacity 16 is asked for 20 bytes: `reserve(4)` finds room for
4 and does nothing, and `set_len(20)` goes beyond the 16. -/
theorem reserve_overruns :
    ¬ (vec ⟨[], 16, false⟩).ReserveSound stdHeap 20 := by
  rintro ⟨-, hle⟩
  exact absurd hle (by decide)

end RespBlob

end RazorRpc
