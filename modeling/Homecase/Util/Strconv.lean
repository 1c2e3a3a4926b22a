import Homecase.Util.Json
import Mathlib.Algebra.Group.Int
import Mathlib.Algebra.Group.Nat.Basic

namespace Homecase

/-! # Decimal integers and booleans of `strconv`

`strconv.ParseInt(s, 10, bitSize)` takes an optional sign off and hands the rest to `ParseUint`,
whose loop multiplies by ten digit by digit and stops with `ErrRange` before the value leaves
`bitSize` bits (or `uint64`). `strconv.Atoi` has a fast path for strings of one to eighteen
bytes, which cannot overflow an `int`, and calls `ParseInt(s, 10, 0)` for the others. Both paths
give one answer, error included, up to the function name the error carries
(`atoi_eq_parseInt`). `FormatInt` followed by `ParseInt` gives every `int64` back
(`parseInt_formatInt`). The configuration parser reads `int` fields with `Atoi` and `bool` fields
with `ParseBool`.

Only base 10 is modelled, the one base every caller passes, and bit sizes 0 and 64.
-/

namespace Strconv

/-- The cause of a `strconv.NumError`: `ErrSyntax` or `ErrRange`. -/
inductive NumErr where
  | errSyntax
  | errRange
  deriving DecidableEq, Repr

/-- `strconv.NumError`: the function that failed, its input, and the cause. -/
structure NumError where
  func : Bytes
  num : Bytes
  err : NumErr
  deriving DecidableEq, Repr

def intSize : Nat := 64

def maxUint64 : Nat := 2 ^ 64 - 1

/-- `cutoff` of `ParseUint` for base 10: the least value whose tenfold leaves `uint64`. -/
def cutoff10 : Nat := maxUint64 / 10 + 1

/-- The loop of `ParseUint(s, 10, bitSize)` from the value `n` read so far, with
`maxVal = 1<<bitSize - 1`. In base 10 every byte but a digit is a syntax error: a letter's digit
value is at least the base, and `_` counts only in base 0. `n1` is computed in `uint64`. -/
def parseUintLoop (maxVal : Nat) (n : Nat) : Bytes → Except NumErr Nat
  | [] => .ok n
  | c :: rest =>
    if ¬ (0x30 ≤ c.val ∧ c.val ≤ 0x39) then .error .errSyntax
    else if cutoff10 ≤ n then .error .errRange
    else
      let n1 := (n * 10 + (c.val - 0x30)) % 2 ^ 64
      if n1 < n * 10 ∨ maxVal < n1 then .error .errRange else parseUintLoop maxVal n1 rest

/-- `strconv.ParseUint(s, 10, bitSize)`: the value, or the error with the value Go returns beside
it (`maxVal` on overflow). -/
def parseUint (s : Bytes) (bitSize : Nat) : Nat × Option NumError :=
  if s = [] then (0, some ⟨ascii "ParseUint", s, .errSyntax⟩)
  else
    let maxVal := 2 ^ (if bitSize = 0 then intSize else bitSize) - 1
    match parseUintLoop maxVal 0 s with
    | .ok n => (n, none)
    | .error .errSyntax => (0, some ⟨ascii "ParseUint", s, .errSyntax⟩)
    | .error .errRange => (maxVal, some ⟨ascii "ParseUint", s, .errRange⟩)

/-- `ParseInt(s, 10, bitSize)` once the sign is off: `ParseUint` of the digits, then the range
check of `bitSize` bits. -/
def parseIntDigits (s : Bytes) (bitSize : Nat) (neg : Bool) (digits : Bytes) : Int × Option NumError :=
  let (un, err) := parseUint digits bitSize
  let cutoff := 2 ^ ((if bitSize = 0 then intSize else bitSize) - 1)
  let checked : Int × Option NumError :=
    if !neg ∧ cutoff ≤ un then ((cutoff - 1 : Nat), some ⟨ascii "ParseInt", s, .errRange⟩)
    else if neg ∧ cutoff < un then (-(cutoff : Int), some ⟨ascii "ParseInt", s, .errRange⟩)
    else (if neg then -(un : Int) else un, none)
  match err with
  | some e => if e.err = .errRange then checked else (0, some { e with func := ascii "ParseInt", num := s })
  | none => checked

/-- `strconv.ParseInt(s, 10, bitSize)`. -/
def parseInt (s : Bytes) (bitSize : Nat) : Int × Option NumError :=
  if s = [] then (0, some ⟨ascii "ParseInt", s, .errSyntax⟩)
  else if s.head? = some 0x2B then parseIntDigits s bitSize false s.tail
  else if s.head? = some 0x2D then parseIntDigits s bitSize true s.tail
  else parseIntDigits s bitSize false s

/-- Arithmetic on a Go `int`: wrapped to 64 bits. -/
def wrapInt (x : Int) : Int := x.bmod (2 ^ 64)

/-- The fast loop of `Atoi`: `ch -= '0'` on a byte, and `n = n*10 + int(ch)` on an `int`. -/
def atoiLoop (n : Int) : Bytes → Option Int
  | [] => some n
  | c :: rest =>
    let ch : Byte := c - 0x30
    if 9 < ch.val then none else atoiLoop (wrapInt (n * 10 + ch.val)) rest

/-- `strconv.Atoi`: the fast path for one to eighteen bytes, `ParseInt(s, 10, 0)` otherwise, with
the error's function renamed. -/
def atoi (s : Bytes) : Int × Option NumError :=
  if 0 < s.length ∧ s.length < 19 then
    let signed := s.head? = some 0x2D ∨ s.head? = some 0x2B
    let digits := if signed then s.tail else s
    if signed ∧ digits = [] then (0, some ⟨ascii "Atoi", s, .errSyntax⟩)
    else
      match atoiLoop 0 digits with
      | none => (0, some ⟨ascii "Atoi", s, .errSyntax⟩)
      | some n => (if s.head? = some 0x2D then wrapInt (-n) else n, none)
  else
    let (value, err) := parseInt s 0
    (value, err.map fun e => { e with func := ascii "Atoi" })

def parseBool (str : Bytes) : Bool × Option NumError :=
  if str ∈ [ascii "1", ascii "t", ascii "T", ascii "true", ascii "TRUE", ascii "True"] then (true, none)
  else if str ∈ [ascii "0", ascii "f", ascii "F", ascii "false", ascii "FALSE", ascii "False"] then
    (false, none)
  else (false, some ⟨ascii "ParseBool", str, .errSyntax⟩)

def formatBool (b : Bool) : Bytes := if b then ascii "true" else ascii "false"

def digitStep (value : Nat) (c : Byte) : Nat := value * 10 + (c.val - 0x30)

theorem le_foldl_digitStep (xs : Bytes) (m : Nat) : m ≤ xs.foldl digitStep m := by
  induction xs generalizing m with
  | nil => exact le_rfl
  | cons c rest ih => exact (Nat.le_mul_of_pos_right m (by omega)).trans ((Nat.le_add_right _ _).trans (ih _))

theorem foldl_digitStep_lt {xs : Bytes} (digits : ∀ c ∈ xs, Json.isDigit c) {m k : Nat} (small : m < 10 ^ k) :
    xs.foldl digitStep m < 10 ^ (k + xs.length) := by
  induction xs generalizing m k with
  | nil => simpa using small
  | cons c rest ih =>
    have digit := digits c (List.mem_cons_self _ _)
    simp only [Json.isDigit, Bool.and_eq_true, decide_eq_true_eq] at digit
    have step : digitStep m c < 10 ^ (k + 1) := by
      rw [Nat.pow_succ]; unfold digitStep; omega
    simpa [Nat.add_assoc, Nat.add_comm 1] using
      ih (fun c member => digits c (List.mem_cons_of_mem _ member)) step

theorem parseUintLoop_digits {maxVal : Nat} (small : maxVal ≤ maxUint64) {xs : Bytes} :
    ∀ {m : Nat}, (∀ c ∈ xs, Json.isDigit c) → xs.foldl digitStep m ≤ maxVal →
      parseUintLoop maxVal m xs = .ok (xs.foldl digitStep m) := by
  induction xs with
  | nil => intro m _ _; rfl
  | cons c rest ih =>
    intro m digits fits
    have digit := digits c (List.mem_cons_self _ _)
    simp only [Json.isDigit, Bool.and_eq_true, decide_eq_true_eq] at digit
    have next : digitStep m c ≤ maxVal := (le_foldl_digitStep rest _).trans fits
    unfold digitStep at next
    simp only [maxUint64] at small
    have below : ¬ cutoff10 ≤ m := by simp only [cutoff10, maxUint64]; omega
    rw [parseUintLoop, if_neg (not_not.mpr digit), if_neg below,
      Nat.mod_eq_of_lt (show m * 10 + (c.val - 0x30) < 2 ^ 64 by omega), if_neg (by omega)]
    exact ih (fun c member => digits c (List.mem_cons_of_mem _ member)) fits


theorem parseUintLoop_eq_ok {maxVal : Nat} {xs : Bytes} :
    ∀ {m v : Nat}, parseUintLoop maxVal m xs = .ok v →
      (∀ c ∈ xs, Json.isDigit c) ∧ xs.foldl digitStep m = v := by
  induction xs with
  | nil => intro m v read; cases read; exact ⟨nofun, rfl⟩
  | cons c rest ih =>
    intro m v read
    rw [parseUintLoop] at read
    dsimp only at read
    split_ifs at read with digit below wrapped
    obtain ⟨digits, value⟩ := ih read
    have exact : (m * 10 + (c.val - 0x30)) % 2 ^ 64 = digitStep m c := by
      unfold digitStep; simp only [cutoff10, maxUint64] at below; omega
    rw [exact] at value
    refine ⟨fun b member => ?_, value⟩
    rcases List.mem_cons.mp member with rfl | later
    · simpa [Json.isDigit] using digit
    · exact digits b later

/-- Eighteen digits or fewer, after `k` read to less than `10 ^ k`, never overflow. -/
theorem parseUintLoop_short {maxVal : Nat} (big : 10 ^ 18 ≤ maxVal + 1) {xs : Bytes} :
    ∀ {k m : Nat}, m < 10 ^ k → k + xs.length ≤ 18 → parseUintLoop maxVal m xs ≠ .error .errRange := by
  induction xs with
  | nil => intro k m _ _; nofun
  | cons c rest ih =>
    intro k m small short
    have length : k + 1 + rest.length ≤ 18 := by simp at short; omega
    have bound : 10 ^ k ≤ 10 ^ 17 := Nat.pow_le_pow_right (by omega) (by omega)
    have top : 10 ^ (k + 1) ≤ 10 ^ 18 := Nat.pow_le_pow_right (by omega) (by omega)
    rw [parseUintLoop]
    by_cases digit : 0x30 ≤ c.val ∧ c.val ≤ 0x39
    · have below : ¬ cutoff10 ≤ m := by simp only [cutoff10, maxUint64]; omega
      have next : m * 10 + (c.val - 0x30) < 10 ^ (k + 1) := by rw [Nat.pow_succ]; omega
      rw [if_neg (not_not.mpr digit), if_neg below]
      dsimp only
      rw [Nat.mod_eq_of_lt (by omega), if_neg (by omega)]
      exact ih next length
    · rw [if_pos digit]
      nofun

theorem byte_sub_zero_val (c : Byte) : (c - 0x30 : Byte).val = (208 + c.val) % 256 := Fin.coe_sub _ _

theorem wrapInt_of_small {x : Int} (lower : -2 ^ 63 ≤ x) (upper : x < 2 ^ 63) : wrapInt x = x := by
  rw [wrapInt, Int.bmod_def]
  split_ifs <;> omega

/-- The fast loop on eighteen digits or fewer reads them to their value, and stops at anything else. -/
theorem atoiLoop_short {xs : Bytes} :
    ∀ {k m : Nat}, m < 10 ^ k → k + xs.length ≤ 18 →
      atoiLoop m xs = if xs.all Json.isDigit then some ((xs.foldl digitStep m : Nat) : Int) else none := by
  induction xs with
  | nil => intro k m _ _; rfl
  | cons c rest ih =>
    intro k m small short
    have bound : 10 ^ k ≤ 10 ^ 17 := Nat.pow_le_pow_right (by omega) (by simp at short; omega)
    have next : digitStep m c < 10 ^ (k + 1) ∨ ¬ Json.isDigit c := by
      unfold digitStep; simp only [Json.isDigit, Bool.and_eq_true, decide_eq_true_eq]
      rw [Nat.pow_succ]; omega
    rw [atoiLoop, byte_sub_zero_val]
    by_cases digit : Json.isDigit c
    · have values := digit
      simp only [Json.isDigit, Bool.and_eq_true, decide_eq_true_eq] at values
      have small' := next.resolve_right (not_not.mpr digit)
      have fits : ((m : Int) * 10 + (((208 + c.val) % 256 : Nat) : Int)) = (digitStep m c : Nat) := by
        unfold digitStep; omega
      rw [if_neg (by omega), fits, wrapInt_of_small (by omega) (by unfold digitStep at small' ⊢; omega),
        ih small' (by simp at short; omega)]
      simp [digit]
    · simp only [Json.isDigit, Bool.and_eq_true, decide_eq_true_eq] at digit
      rw [if_pos (by omega)]
      simp [Json.isDigit, digit]


/-- `ParseUint(s, 10, 0)` of one to eighteen bytes: their value if they are digits, else a syntax
error. -/
theorem parseUint_short {s : Bytes} (nonempty : s ≠ []) (short : s.length ≤ 18) :
    parseUint s 0 = if s.all Json.isDigit then (s.foldl digitStep 0, none)
      else (0, some ⟨ascii "ParseUint", s, .errSyntax⟩) := by
  have big : 10 ^ 18 ≤ 2 ^ intSize - 1 + 1 := by simp only [intSize]; omega
  rw [parseUint, if_neg nonempty]
  dsimp only
  rw [if_pos rfl]
  split_ifs with digits
  · have value := foldl_digitStep_lt (by simpa using digits) (show 0 < 10 ^ 0 by omega)
    have top : 10 ^ (0 + s.length) ≤ 10 ^ 18 := Nat.pow_le_pow_right (by omega) (by omega)
    rw [parseUintLoop_digits (by simp only [intSize, maxUint64]; omega) (by simpa using digits)
      (by simp only [intSize]; omega)]
  · cases read : parseUintLoop (2 ^ intSize - 1) 0 s with
    | ok v => exact absurd (by simpa using (parseUintLoop_eq_ok read).1) digits
    | error e =>
      cases e with
      | errSyntax => rfl
      | errRange => exact absurd read (parseUintLoop_short big (show 0 < 10 ^ 0 by omega) (by omega))


/-- What `ParseInt` and `Atoi` give for at most eighteen bytes: the signed value of the digits
after the sign, or a syntax error of `func`. -/
def shortResult (func s : Bytes) (neg : Bool) (digits : Bytes) : Int × Option NumError :=
  if digits ≠ [] ∧ digits.all Json.isDigit then
    (if neg then -((digits.foldl digitStep 0 : Nat) : Int) else (digits.foldl digitStep 0 : Nat), none)
  else (0, some ⟨func, s, .errSyntax⟩)

theorem parseIntDigits_short (s : Bytes) (neg : Bool) {digits : Bytes} (short : digits.length ≤ 18) :
    parseIntDigits s 0 neg digits = shortResult (ascii "ParseInt") s neg digits := by
  unfold parseIntDigits shortResult
  rcases digits with _ | ⟨c, rest⟩
  · rfl
  rw [parseUint_short (List.cons_ne_nil _ _) short]
  by_cases digits : (c :: rest).all Json.isDigit
  · have value := foldl_digitStep_lt (List.all_eq_true.mp digits) (show 0 < 10 ^ 0 by omega)
    have top : 10 ^ (0 + (c :: rest).length) ≤ 10 ^ 18 := Nat.pow_le_pow_right (by omega) (by omega)
    rw [if_pos (show c :: rest ≠ [] ∧ _ from ⟨List.cons_ne_nil _ _, digits⟩)]
    have fits : (c :: rest).foldl digitStep 0 < 2 ^ 63 := by omega
    generalize (c :: rest).foldl digitStep 0 = v at fits ⊢
    simp only [if_pos digits, intSize, if_pos rfl]
    cases neg <;> simp <;> omega
  · simp only [if_neg digits]
    exact (if_neg fun both => digits both.2).symm

theorem parseInt_short {s : Bytes} (nonempty : s ≠ []) (short : s.length ≤ 18) :
    parseInt s 0 = shortResult (ascii "ParseInt") s (s.head? = some 0x2D)
      (if s.head? = some 0x2D ∨ s.head? = some 0x2B then s.tail else s) := by
  have tail : s.tail.length ≤ 18 := by rw [List.length_tail]; omega
  rw [parseInt, if_neg nonempty]
  by_cases plus : s.head? = some 0x2B
  · have notMinus : s.head? ≠ some 0x2D := by rw [plus]; decide
    rw [if_pos plus, parseIntDigits_short _ _ tail, if_pos (.inr plus)]
    simp [notMinus]
  · by_cases minus : s.head? = some 0x2D
    · rw [if_neg plus, if_pos minus, parseIntDigits_short _ _ tail, if_pos (.inl minus)]
      simp [minus]
    · rw [if_neg plus, if_neg minus, parseIntDigits_short _ _ short, if_neg (by tauto)]
      simp [minus]


theorem atoi_short {s : Bytes} (fast : 0 < s.length ∧ s.length < 19) :
    atoi s = shortResult (ascii "Atoi") s (s.head? = some 0x2D)
      (if s.head? = some 0x2D ∨ s.head? = some 0x2B then s.tail else s) := by
  rw [atoi, if_pos fast]
  dsimp only
  have nonempty : s ≠ [] := List.ne_nil_of_length_pos fast.1
  generalize digitsDef : (if s.head? = some 0x2D ∨ s.head? = some 0x2B then s.tail else s) = digits
  have short : digits.length ≤ 18 := by
    rw [← digitsDef]
    split_ifs
    · rw [List.length_tail]; omega
    · omega
  unfold shortResult
  by_cases signedEmpty : (s.head? = some 0x2D ∨ s.head? = some 0x2B) ∧ digits = []
  · rw [if_pos signedEmpty, if_neg fun both => both.1 signedEmpty.2]
  · have named : digits ≠ [] := by
      rintro rfl
      by_cases signed : s.head? = some 0x2D ∨ s.head? = some 0x2B
      · exact signedEmpty ⟨signed, rfl⟩
      · rw [if_neg signed] at digitsDef; exact nonempty digitsDef
    have loop : atoiLoop 0 digits =
        if digits.all Json.isDigit then some ((digits.foldl digitStep 0 : Nat) : Int) else none :=
      atoiLoop_short (k := 0) (m := 0) Nat.one_pos (by omega)
    rw [if_neg signedEmpty, loop]
    by_cases digits' : digits.all Json.isDigit
    · have value := foldl_digitStep_lt (List.all_eq_true.mp digits') (show 0 < 10 ^ 0 by omega)
      have top : 10 ^ (0 + digits.length) ≤ 10 ^ 18 := Nat.pow_le_pow_right (by omega) (by omega)
      rw [if_pos digits', if_pos ⟨named, digits'⟩]
      dsimp only
      by_cases minus : s.head? = some 0x2D
      · rw [if_pos minus, wrapInt_of_small (by omega) (by omega)]
        simp [minus]
      · simp [minus]
    · rw [if_neg digits', if_neg fun both => digits' both.2]

/-- `strconv.Atoi`'s fast path gives what its slow path, `ParseInt(s, 10, 0)`, gives for every
string: the value, and the error up to the function it names. -/
theorem atoi_eq_parseInt (s : Bytes) :
    atoi s = ((parseInt s 0).1, (parseInt s 0).2.map fun e => { e with func := ascii "Atoi" }) := by
  by_cases fast : 0 < s.length ∧ s.length < 19
  · rw [atoi_short fast, parseInt_short (List.ne_nil_of_length_pos fast.1) (by omega)]
    unfold shortResult
    split_ifs <;> rfl
  · rw [atoi, if_neg fast]

theorem parseUint_formatNat {k : Nat} (bitSize : Nat) (fits : k ≤ 2 ^ (if bitSize = 0 then intSize else bitSize) - 1)
    (small : 2 ^ (if bitSize = 0 then intSize else bitSize) - 1 ≤ maxUint64) :
    parseUint (Json.formatNat k) bitSize = (k, none) := by
  have value : (Json.formatNat k).foldl digitStep 0 = k := Json.digitsValue_formatNat k
  rw [parseUint, if_neg (Json.formatNat_ne_nil k)]
  dsimp only
  rw [parseUintLoop_digits small (Json.formatNat_isDigit k) (by rw [value]; exact fits), value]

theorem formatNat_head (k : Nat) : (Json.formatNat k).head? ≠ some 0x2B ∧ (Json.formatNat k).head? ≠ some 0x2D := by
  obtain ⟨c, rest, written⟩ := List.exists_cons_of_ne_nil (Json.formatNat_ne_nil k)
  have digit := Json.formatNat_isDigit k c (by rw [written]; exact List.mem_cons_self _ _)
  simp only [Json.isDigit, Bool.and_eq_true, decide_eq_true_eq] at digit
  rw [written]
  constructor <;> rintro ⟨⟩ <;> simp at digit

theorem parseInt_formatInt {n : Int} (lower : -2 ^ 63 ≤ n) (upper : n < 2 ^ 63) :
    parseInt (Json.formatInt n) 64 = (n, none) := by
  have small : 2 ^ (if (64 : Nat) = 0 then intSize else 64) - 1 ≤ maxUint64 := le_rfl
  cases n with
  | ofNat k =>
    have fits : k < 2 ^ 63 := by simp only [Int.ofNat_eq_coe] at upper; omega
    obtain ⟨plus, minus⟩ := formatNat_head k
    rw [Json.formatInt, parseInt, if_neg (Json.formatNat_ne_nil k), if_neg plus, if_neg minus, parseIntDigits,
      parseUint_formatNat 64 (show k ≤ 2 ^ 64 - 1 by omega) small]
    show (if !false ∧ 2 ^ 63 ≤ k then _ else if false ∧ 2 ^ 63 < k then _ else _) = _
    rw [if_neg (by simp; omega), if_neg (by simp)]
    rfl
  | negSucc k =>
    have fits : k + 1 ≤ 2 ^ 63 := by rw [Int.negSucc_eq] at lower; omega
    rw [Json.formatInt, parseInt, if_neg (List.cons_ne_nil _ _)]
    simp only [List.head?_cons, List.tail_cons]
    rw [if_neg (by decide), if_pos trivial, parseIntDigits,
      parseUint_formatNat 64 (show k + 1 ≤ 2 ^ 64 - 1 by omega) small]
    show (if !true ∧ 2 ^ 63 ≤ k + 1 then _ else if true ∧ 2 ^ 63 < k + 1 then _ else _) = _
    rw [if_neg (by simp), if_neg (by simp; omega)]
    rfl

theorem parseInt_zero_eq (s : Bytes) : parseInt s 0 = parseInt s 64 := rfl

/-- Every `int64` that `FormatInt` writes reads back, with `ParseInt(s, 10, 64)` and with `Atoi`. -/
theorem formatInt_round_trip {n : Int} (lower : -2 ^ 63 ≤ n) (upper : n < 2 ^ 63) :
    parseInt (Json.formatInt n) 64 = (n, none) ∧ atoi (Json.formatInt n) = (n, none) := by
  have parsed := parseInt_formatInt lower upper
  refine ⟨parsed, ?_⟩
  rw [atoi_eq_parseInt, parseInt_zero_eq, parsed]
  rfl

theorem parseBool_formatBool (b : Bool) : parseBool (formatBool b) = (b, none) := by
  cases b <;> decide

end Strconv

end Homecase
