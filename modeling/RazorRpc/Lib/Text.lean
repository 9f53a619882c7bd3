import Mathlib.Data.Int.Basic
import Mathlib.Tactic.Common

/-!
# Numbers and lists as text

A number is written in decimal and read back digit by digit, in the arithmetic of a signed
machine integer of the range `lo .. hi`: every step is checked, and a digit too many is a
failure and not a wrapped number. A list is written with a separator between its members.

* `parse_toString` — a number of the range comes back from its own text;
* `mem_toString` — that text has only digits and a sign, so no separator;
* `split_intercalate` — a list that is not empty comes back from its members' texts;
* `split_empty` — the empty text is a list of one member, and not the empty list.
-/

namespace Text

/-! ## Decimal numbers -/

/-- A result of the arithmetic, if the type has it. -/
def checked (lo hi v : ℤ) : Option ℤ :=
  if lo ≤ v ∧ v ≤ hi then some v else none

def toDigit (c : Char) : Option ℕ :=
  if c.isDigit then some (c.toNat - '0'.toNat) else none

/-- The number of the given size and sign. -/
def signed (negative : Bool) (n : ℕ) : ℤ :=
  if negative then -n else n

/-- One more digit of a number: after a minus sign the number is counted down from `0`, so
that the least number of the range can be read. -/
def readDigit (lo hi : ℤ) (negative : Bool) (v : ℤ) (c : Char) : Option ℤ := do
  let d ← toDigit c
  let tens ← checked lo hi (v * 10)
  checked lo hi (tens + signed negative d)

def readDigits (lo hi : ℤ) (negative : Bool) (ds : List Char) : Option ℤ :=
  ds.foldlM (readDigit lo hi negative) 0

/-- Reads a number: a sign may stand first, and at least one digit follows. -/
def parse (lo hi : ℤ) (s : String) : Option ℤ :=
  match s.toList with
  | [] => none
  | ['+'] => none
  | ['-'] => none
  | '+' :: ds => readDigits lo hi false ds
  | '-' :: ds => readDigits lo hi true ds
  | ds => readDigits lo hi false ds

theorem toDigit_digitChar {d : ℕ} (hd : d < 10) : toDigit d.digitChar = some d := by
  have hdigit : d.digitChar.isDigit = true := by rw [Nat.isDigit_digitChar, decide_eq_true hd]
  rw [toDigit, if_pos hdigit]
  exact congrArg some (Nat.toNat_digitChar_sub_48_of_lt_ten hd)

/-- The digits of a number count in one direction, away from `0`. -/
theorem signed_mul_add (negative : Bool) (n d : ℕ) :
    signed negative n * 10 + signed negative d = signed negative (n * 10 + d) := by
  cases negative
  · simp [signed]
  · simp [signed]
    omega

theorem parse_of_isDigit {lo hi : ℤ} {s : String} (hne : s.toList ≠ [])
    (hs : ∀ c ∈ s.toList, c.isDigit) : parse lo hi s = readDigits lo hi false s.toList := by
  rw [parse]
  split
  case h_1 h => exact absurd h hne
  case h_6 => rfl
  -- a sign is not a digit
  all_goals
    rename_i h
    rw [h] at hs
    exact absurd (hs _ List.mem_cons_self) (by decide)

theorem parse_minus {lo hi : ℤ} {s : String} (hne : s.toList ≠ []) :
    parse lo hi ("-" ++ s) = readDigits lo hi true s.toList := by
  have htext : ("-" ++ s).toList = '-' :: s.toList := by rw [String.toList_append]; rfl
  obtain ⟨c, cs, hs⟩ := List.exists_cons_of_ne_nil hne
  rw [parse, htext, hs]
  rfl

section Range

variable {lo hi : ℤ} (hlo : lo ≤ 0) (hhi : 0 ≤ hi)

include hlo hhi

/-- A number nearer to `0` than one of the range is of the range. -/
theorem signed_mem {negative : Bool} {n m : ℕ} (hnm : n ≤ m)
    (hmin : lo ≤ signed negative m) (hmax : signed negative m ≤ hi) :
    lo ≤ signed negative n ∧ signed negative n ≤ hi := by
  cases negative <;> simp [signed] at * <;> omega

theorem readDigit_digitChar {negative : Bool} {n d : ℕ} (hd : d < 10)
    (hmin : lo ≤ signed negative (n * 10 + d)) (hmax : signed negative (n * 10 + d) ≤ hi) :
    readDigit lo hi negative (signed negative n) d.digitChar =
      some (signed negative (n * 10 + d)) := by
  have htens : signed negative n * 10 = signed negative (n * 10) := by
    rw [← Nat.add_zero (n * 10), ← signed_mul_add]
    cases negative <;> simp [signed]
  have hchecked : checked lo hi (signed negative (n * 10)) = some (signed negative (n * 10)) :=
    if_pos (signed_mem hlo hhi (Nat.le_add_right (n * 10) d) hmin hmax)
  rw [readDigit, toDigit_digitChar hd, htens]
  simp only [Option.bind_eq_bind, Option.bind_some, hchecked]
  rw [← htens, signed_mul_add]
  exact if_pos ⟨hmin, hmax⟩

/-- What is read of the digits of a number of the range. -/
theorem readDigits_toDigits (negative : Bool) (n : ℕ)
    (hmin : lo ≤ signed negative n) (hmax : signed negative n ≤ hi) :
    readDigits lo hi negative (Nat.toDigits 10 n) = some (signed negative n) := by
  have hzero : (0 : ℤ) = signed negative 0 := by cases negative <;> rfl
  -- on the leading digits: what stands before the last digit is a number of the range too
  induction n using Nat.strong_induction_on with
  | _ n ih =>
    by_cases hn : n < 10
    · rw [Nat.toDigits_of_lt_base hn, readDigits, List.foldlM_cons, hzero,
        readDigit_digitChar hlo hhi hn]
      · simp
      · simpa using hmin
      · simpa using hmax
    · have hdigits : n / 10 * 10 + n % 10 = n := by omega
      have hlead := signed_mem (n := n / 10) hlo hhi (by omega) hmin hmax
      have hbefore := ih (n / 10) (by omega) hlead.1 hlead.2
      rw [readDigits] at hbefore
      rw [Nat.toDigits_of_base_le (by decide) (by omega), readDigits, List.foldlM_append, hbefore]
      simp only [Option.bind_eq_bind, Option.bind_some, List.foldlM_cons, List.foldlM_nil]
      rw [readDigit_digitChar hlo hhi (Nat.mod_lt n (by decide))] <;> simp [hdigits, hmin, hmax]

/-- **A number comes back from its text**, if it is of the range. -/
theorem parse_toString {v : ℤ} (hmin : lo ≤ v) (hmax : v ≤ hi) :
    parse lo hi (toString v) = some v := by
  have hne : ∀ n : ℕ, n.repr.toList ≠ [] := by
    intro n
    rw [Nat.toList_repr]
    exact Nat.toDigits_ne_nil
  rw [Int.toString_eq_repr, Int.repr_eq_if]
  split_ifs with hv
  · have hsigned : signed false v.toNat = v := Int.toNat_of_nonneg hv
    have hread := readDigits_toDigits hlo hhi false v.toNat
    rw [hsigned] at hread
    rw [parse_of_isDigit (hne _), Nat.toList_repr]
    · exact hread hmin hmax
    · intro c hc
      rw [Nat.toList_repr] at hc
      exact Nat.isDigit_of_mem_toDigits (by decide) (by decide) hc
  · have hsigned : signed true (-v).toNat = v := by
      simp only [signed, if_true]
      omega
    have hread := readDigits_toDigits hlo hhi true (-v).toNat
    rw [hsigned] at hread
    rw [parse_minus (hne _), Nat.toList_repr]
    exact hread hmin hmax

end Range

/-- The text of a number has digits and a sign only. -/
theorem mem_toString {v : ℤ} {c : Char} (hc : c ∈ (toString v).toList) : c.isDigit ∨ c = '-' := by
  rw [Int.toString_eq_repr, Int.repr_eq_if] at hc
  split_ifs at hc with hv
  · rw [Nat.toList_repr] at hc
    exact Or.inl (Nat.isDigit_of_mem_toDigits (by decide) (by decide) hc)
  · rw [String.toList_append, Nat.toList_repr] at hc
    rcases List.mem_append.mp hc with hsign | hdigit
    · exact Or.inr (by simpa using hsign)
    · exact Or.inl (Nat.isDigit_of_mem_toDigits (by decide) (by decide) hdigit)

/-! ## Separated lists -/

/-- The pieces between the separators. -/
def split (sep : Char) (s : String) : List String :=
  (s.toList.splitOn sep).map String.ofList

/-- The empty text has one piece, the empty one. -/
@[simp] theorem split_empty (sep : Char) : split sep "" = [""] := rfl

theorem split_intercalate {sep : Char} {ss : List String} (hsep : ∀ s ∈ ss, sep ∉ s.toList)
    (hne : ss ≠ []) : split sep ((String.singleton sep).intercalate ss) = ss := by
  have hpieces : ∀ cs ∈ ss.map String.toList, sep ∉ cs := by
    intro cs hcs
    obtain ⟨s, hs, rfl⟩ := List.mem_map.mp hcs
    exact hsep s hs
  have hne' : ss.map String.toList ≠ [] := by
    intro h
    exact hne (List.map_eq_nil_iff.mp h)
  rw [split, String.toList_intercalate, String.toList_singleton,
    List.splitOn_intercalate sep hpieces hne', List.map_map]
  simp [Function.comp_def]

end Text
