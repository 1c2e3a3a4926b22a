import Mathlib.Data.List.Basic

namespace Homecase

/-! # Go byte strings and UTF-8

A Go `string` or `[]byte` is a sequence of bytes with no encoding attached; `Bytes` models both.
`runes` reads such a sequence the way Go's `unicode/utf8` walks it, one `utf8.DecodeRune` at a
time, so that a byte that starts no well-formed sequence is read as `RuneError` of width one.
`encoding/json` and `fmt` walk strings this way, on the writing and on the reading side.
-/

/-- A Go `byte`. -/
abbrev Byte := Fin 256

/-- A Go `string` or `[]byte`. -/
abbrev Bytes := List Byte

@[simp] theorem byte_val_ofNat (n : Nat) : ((no_index (OfNat.ofNat n) : Byte)).val = n % 256 := rfl

def ascii (text : String) : Bytes := text.toList.map fun c => Fin.ofNat c.toNat

/-- What `utf8.DecodeRune` reads off a leading byte of `0x80` or more (its tables `first` and
`acceptRanges`): how many continuation bytes follow the second byte, and the range the second
byte must lie in; `none` for the bytes it marks `xx`, which start no sequence. -/
def leadRange (lead : Nat) : Option (Nat × Nat × Nat) :=
  if lead < 0xC2 then none
  else if lead ≤ 0xDF then some (0, 0x80, 0xBF)
  else if lead = 0xE0 then some (1, 0xA0, 0xBF)
  else if lead ≤ 0xEC then some (1, 0x80, 0xBF)
  else if lead = 0xED then some (1, 0x80, 0x9F)
  else if lead ≤ 0xEF then some (1, 0x80, 0xBF)
  else if lead = 0xF0 then some (2, 0x90, 0xBF)
  else if lead ≤ 0xF3 then some (2, 0x80, 0xBF)
  else if lead = 0xF4 then some (2, 0x80, 0x8F)
  else none

/-- A continuation byte, between `locb` and `hicb`. -/
def isContinuation (b : Byte) : Bool := 0x80 ≤ b.val && b.val ≤ 0xBF

def continues : Nat → Bytes → Bool
  | 0, _ => true
  | count + 1, b :: rest => isContinuation b && continues count rest
  | _ + 1, [] => false

/-- How many bytes `utf8.DecodeRune` consumes for the well-formed sequence at the head of a
string whose first byte is `0x80` or more, or `none` when it answers `(RuneError, 1)`: the
leading byte fixes the length and the range of the second byte, and the bytes after it must be
continuation bytes. -/
def decodeRuneWidth : Bytes → Option Nat
  | b0 :: b1 :: rest =>
    match leadRange b0.val with
    | some (more, lo, hi) =>
      if lo ≤ b1.val ∧ b1.val ≤ hi ∧ continues more rest then some (more + 2) else none
    | none => none
  | _ => none

/-- `utf8.DecodeRune`: the rune at the head of a string and its width; `(RuneError, 1)` for a
byte that starts no well-formed sequence and `(RuneError, 0)` for the empty string. -/
def decodeRune : Bytes → Nat × Nat
  | [] => (0xFFFD, 0)
  | b0 :: rest =>
    if b0.val < 0x80 then (b0.val, 1)
    else
      match decodeRuneWidth (b0 :: rest), rest with
      | some 2, b1 :: _ => ((b0.val % 0x20) * 0x40 + b1.val % 0x40, 2)
      | some 3, b1 :: b2 :: _ => ((b0.val % 0x10) * 0x1000 + (b1.val % 0x40) * 0x40 + b2.val % 0x40, 3)
      | some 4, b1 :: b2 :: b3 :: _ =>
        ((b0.val % 0x08) * 0x40000 + (b1.val % 0x40) * 0x1000 + (b2.val % 0x40) * 0x40 +
          b3.val % 0x40, 4)
      | _, _ => (0xFFFD, 1)

/-- What one call of `utf8.DecodeRune` reads off the front of a string. -/
inductive Rune where
  /-- A byte below `0x80`, a rune by itself. -/
  | ascii (b : Byte)
  /-- A well-formed sequence of two to four bytes. -/
  | multi (bytes : Bytes)
  /-- A byte that starts no well-formed sequence, read as `RuneError` of width one. -/
  | invalid (b : Byte)
  deriving DecidableEq, Repr

namespace Rune

def bytes : Rune → Bytes
  | .ascii b => [b]
  | .multi bytes => bytes
  | .invalid b => [b]

/-- The encoding of `U+FFFD`, which Go writes in place of an ill-formed byte. -/
def replacement : Bytes := [0xEF, 0xBF, 0xBD]

/-- The bytes of a rune once ill-formed input is replaced, as `strings.ToValidUTF8` with
`"�"` would write them byte by byte. -/
def sanitized : Rune → Bytes
  | .invalid _ => replacement
  | r => r.bytes

/-- What the walk can read: an ASCII byte below `0x80`, and a multi-byte sequence that
`utf8.DecodeRune` decodes to its full length whatever follows it. -/
def WellFormed : Rune → Prop
  | .ascii b => b.val < 0x80
  | .multi bytes => 2 ≤ bytes.length ∧ ∀ rest, decodeRuneWidth (bytes ++ rest) = some bytes.length
  | .invalid b => 0x80 ≤ b.val

end Rune

/-- The walk `for i < len(s) { _, size := utf8.DecodeRune(s[i:]); i += size }`, for at most
`fuel` steps. -/
def runesFuel : Nat → Bytes → List Rune
  | 0, _ => []
  | _ + 1, [] => []
  | fuel + 1, b :: rest =>
    if b.val < 0x80 then .ascii b :: runesFuel fuel rest
    else match decodeRuneWidth (b :: rest) with
      | some width => .multi (b :: rest.take (width - 1)) :: runesFuel fuel (rest.drop (width - 1))
      | none => .invalid b :: runesFuel fuel rest

/-- The walk over a whole string: every step reads a byte at least, so one step per byte is
enough. -/
def runes (s : Bytes) : List Rune := runesFuel s.length s

/-- `utf8.EncodeRune`: surrogate halves and values past `U+10FFFF` are written as `U+FFFD`. -/
def encodeRune (r : Nat) : Bytes :=
  if r ≤ 0x7F then [Fin.ofNat r]
  else if r ≤ 0x7FF then [Fin.ofNat (0xC0 + r / 0x40), Fin.ofNat (0x80 + r % 0x40)]
  else if (0xD800 ≤ r ∧ r ≤ 0xDFFF) ∨ 0x10FFFF < r then Rune.replacement
  else if r ≤ 0xFFFF then
    [Fin.ofNat (0xE0 + r / 0x1000), Fin.ofNat (0x80 + r / 0x40 % 0x40), Fin.ofNat (0x80 + r % 0x40)]
  else
    [Fin.ofNat (0xF0 + r / 0x40000), Fin.ofNat (0x80 + r / 0x1000 % 0x40),
      Fin.ofNat (0x80 + r / 0x40 % 0x40), Fin.ofNat (0x80 + r % 0x40)]

/-- `utf8.Valid`. -/
def validUTF8 (s : Bytes) : Bool := (runes s).all fun r => !r matches .invalid _

/-- The string with every ill-formed byte replaced by `U+FFFD`, which is what `json.Marshal`
and `json.Unmarshal` make of a string. -/
def toValidUTF8 (s : Bytes) : Bytes := (runes s).flatMap Rune.sanitized

theorem continues_prefix {count : Nat} {bytes : Bytes} (valid : continues count bytes = true) :
    count ≤ bytes.length ∧ ∀ rest, continues count (bytes.take count ++ rest) = true := by
  induction count generalizing bytes with
  | zero => simp [continues]
  | succ count ih =>
    match bytes, valid with
    | b :: tail, valid =>
      simp only [continues, Bool.and_eq_true] at valid
      obtain ⟨length, prefixed⟩ := ih valid.2
      exact ⟨by simp; omega, fun rest => by simp [continues, valid.1, prefixed]⟩

theorem decodeRuneWidth_prefix {p : Bytes} {width : Nat} (decoded : decodeRuneWidth p = some width) :
    2 ≤ width ∧ width ≤ p.length ∧ ∀ rest, decodeRuneWidth (p.take width ++ rest) = some width := by
  match p with
  | b0 :: b1 :: tail =>
    simp only [decodeRuneWidth] at decoded
    split at decoded
    · rename_i more lo hi lead
      split_ifs at decoded with checks
      cases decoded
      obtain ⟨length, prefixed⟩ := continues_prefix checks.2.2
      refine ⟨by omega, by simp; omega, fun rest => ?_⟩
      simp [decodeRuneWidth, lead, checks.1, checks.2.1, prefixed]
    · contradiction

theorem decodeRuneWidth_lead {b : Byte} {rest : Bytes} {width : Nat}
    (decoded : decodeRuneWidth (b :: rest) = some width) : 0xC2 ≤ b.val := by
  match rest with
  | b1 :: tail =>
    simp only [decodeRuneWidth] at decoded
    split at decoded
    · rename_i lead
      unfold leadRange at lead
      by_contra low
      simp [show b.val < 0xC2 by omega] at lead
    · contradiction

theorem runesFuel_congr {fuel fuel' : Nat} {s : Bytes} (enough : s.length ≤ fuel)
    (enough' : s.length ≤ fuel') : runesFuel fuel s = runesFuel fuel' s := by
  induction fuel generalizing fuel' s with
  | zero =>
    obtain rfl : s = [] := List.eq_nil_of_length_eq_zero (by omega)
    cases fuel' <;> rfl
  | succ fuel ih =>
    match s, fuel' with
    | [], 0 => rfl
    | [], _ + 1 => rfl
    | b :: rest, fuel' + 1 =>
      simp only [List.length_cons] at enough enough'
      have dropped : ∀ k, (rest.drop k).length ≤ rest.length := fun k => by simp
      simp only [runesFuel]
      split
      · exact congrArg _ (ih (by omega) (by omega))
      · split
        · exact congrArg _ (ih ((dropped _).trans (by omega)) ((dropped _).trans (by omega)))
        · exact congrArg _ (ih (by omega) (by omega))

@[simp] theorem runes_nil : runes [] = [] := rfl

theorem runes_cons (b : Byte) (rest : Bytes) :
    runes (b :: rest) =
      if b.val < 0x80 then .ascii b :: runes rest
      else match decodeRuneWidth (b :: rest) with
        | some width => .multi (b :: rest.take (width - 1)) :: runes (rest.drop (width - 1))
        | none => .invalid b :: runes rest := by
  simp only [runes, List.length_cons, runesFuel]
  split
  · rfl
  · split
    · rw [runesFuel_congr (by simp) le_rfl]
    · rfl

/-- Induction along the walk: one case per kind of step. -/
theorem runes_induct {motive : Bytes → Prop} (nil : motive [])
    (ascii : ∀ b rest, b.val < 0x80 → motive rest → motive (b :: rest))
    (multi : ∀ b rest, ¬ b.val < 0x80 → ∀ width, decodeRuneWidth (b :: rest) = some width →
      motive (rest.drop (width - 1)) → motive (b :: rest))
    (invalid : ∀ b rest, ¬ b.val < 0x80 → decodeRuneWidth (b :: rest) = none → motive rest →
      motive (b :: rest))
    (s : Bytes) : motive s := by
  suffices walk : ∀ n, ∀ s : Bytes, s.length ≤ n → motive s from walk s.length s le_rfl
  intro n
  induction n with
  | zero =>
    intro s short
    rw [List.eq_nil_of_length_eq_zero (Nat.le_zero.mp short)]
    exact nil
  | succ n ih =>
    intro s short
    match s with
    | [] => exact nil
    | b :: rest =>
      simp only [List.length_cons] at short
      by_cases low : b.val < 0x80
      · exact ascii b rest low (ih rest (by omega))
      · cases decoded : decodeRuneWidth (b :: rest) with
        | some width =>
          exact multi b rest low width decoded (ih _ ((List.length_drop _ _).trans_le (by omega)))
        | none => exact invalid b rest low decoded (ih rest (by omega))

theorem runes_cons_ascii {b : Byte} (rest : Bytes) (low : b.val < 0x80) :
    runes (b :: rest) = .ascii b :: runes rest := by
  rw [runes_cons, if_pos low]

theorem flatMap_bytes_runes (s : Bytes) : (runes s).flatMap Rune.bytes = s := by
  induction s using runes_induct with
  | nil => simp
  | ascii b rest low ih => simp [runes_cons_ascii rest low, Rune.bytes, ih]
  | multi b rest high width decoded ih =>
    rw [runes_cons, if_neg high, decoded]
    simp [Rune.bytes, ih]
  | invalid b rest high decoded ih =>
    rw [runes_cons, if_neg high, decoded]
    simp [Rune.bytes, ih]

theorem runes_wellFormed (s : Bytes) : ∀ r ∈ runes s, r.WellFormed := by
  induction s using runes_induct with
  | nil => simp
  | ascii b rest low ih =>
    simpa [runes_cons_ascii rest low, Rune.WellFormed, low] using ih
  | multi b rest high width decoded ih =>
    rw [runes_cons, if_neg high, decoded]
    obtain ⟨two, length, prefixed⟩ := decodeRuneWidth_prefix decoded
    have chunk : (b :: rest).take width = b :: rest.take (width - 1) := by
      obtain ⟨k, rfl⟩ : ∃ k, width = k + 1 := ⟨width - 1, by omega⟩
      simp
    have chunkLength : (b :: rest.take (width - 1)).length = width := by
      simp at length ⊢; omega
    refine List.forall_mem_cons.mpr ⟨⟨by omega, fun tail => ?_⟩, ih⟩
    rw [chunkLength, ← chunk]
    exact prefixed tail
  | invalid b rest high decoded ih =>
    rw [runes_cons, if_neg high, decoded]
    exact List.forall_mem_cons.mpr ⟨by simp [Rune.WellFormed]; omega, ih⟩

theorem runes_of_ascii {s : Bytes} (low : ∀ b ∈ s, b.val < 0x80) : runes s = s.map .ascii := by
  induction s with
  | nil => rfl
  | cons b rest ih =>
    rw [runes_cons_ascii rest (low b (by simp)), ih fun c member => low c (by simp [member])]
    rfl

set_option maxRecDepth 4000 in
theorem leadRange_low : ∀ lead : Byte, ∀ range ∈ leadRange lead.val, 0x80 ≤ range.2.1 := by
  decide

theorem continues_of_append_ascii {count : Nat} {p t : Bytes} (low : ∀ b ∈ t, b.val < 0x80)
    (valid : continues count (p ++ t) = true) : continues count p = true := by
  induction count generalizing p with
  | zero => rfl
  | succ count ih =>
    match p, t, valid with
    | [], [], valid => simp [continues] at valid
    | [], b :: _, valid =>
      have := low b (List.mem_cons_self _ _)
      simp [continues, isContinuation] at valid
      omega
    | b :: p, _, valid =>
      simp only [List.cons_append, continues, Bool.and_eq_true] at valid ⊢
      exact ⟨valid.1, ih valid.2⟩

theorem decodeRuneWidth_of_append_ascii {p t : Bytes} {width : Nat} (low : ∀ b ∈ t, b.val < 0x80)
    (decoded : decodeRuneWidth (p ++ t) = some width) : decodeRuneWidth p = some width := by
  match p, t, decoded with
  | [], b :: _, decoded =>
    have := low b (List.mem_cons_self _ _)
    have := decodeRuneWidth_lead decoded
    omega
  | [b0], b1 :: _, decoded =>
    simp only [List.singleton_append, decodeRuneWidth] at decoded
    split at decoded
    · rename_i more lo hi range
      split_ifs at decoded with checks
      have : 0x80 ≤ lo := leadRange_low b0 _ range
      have := low b1 (List.mem_cons_self _ _)
      omega
    · cases decoded
  | b0 :: b1 :: p, t, decoded =>
    simp only [List.cons_append, decodeRuneWidth] at decoded ⊢
    split at decoded
    · split_ifs at decoded with checks
      rw [if_pos ⟨checks.1, checks.2.1, continues_of_append_ascii low checks.2.2⟩]
      exact decoded
    · cases decoded

theorem runes_append_ascii (s : Bytes) {t : Bytes} (low : ∀ b ∈ t, b.val < 0x80) :
    runes (s ++ t) = runes s ++ runes t := by
  induction s using runes_induct with
  | nil => rfl
  | ascii b rest small ih => rw [List.cons_append, runes_cons_ascii _ small, runes_cons_ascii _ small, ih]; rfl
  | multi b rest high width decoded ih =>
    obtain ⟨two, length, prefixed⟩ := decodeRuneWidth_prefix decoded
    have whole : decodeRuneWidth (b :: (rest ++ t)) = some width := by
      have := prefixed ((b :: rest).drop width ++ t)
      rwa [← List.append_assoc, List.take_append_drop] at this
    have inside : width - 1 ≤ rest.length := by simp only [List.length_cons] at length; omega
    rw [List.cons_append, runes_cons, if_neg high, whole, runes_cons, if_neg high, decoded]
    dsimp only
    rw [List.take_append_of_le_length inside, List.drop_append_of_le_length inside, ih]
    rfl
  | invalid b rest high decoded ih =>
    have whole : decodeRuneWidth (b :: (rest ++ t)) = none := by
      cases found : decodeRuneWidth (b :: (rest ++ t)) with
      | none => rfl
      | some width =>
        have := @decodeRuneWidth_of_append_ascii (b :: rest) t width low found
        rw [decoded] at this
        cases this
    rw [List.cons_append, runes_cons, if_neg high, whole, runes_cons, if_neg high, decoded, ih]
    rfl

theorem toValidUTF8_of_valid {s : Bytes} (valid : validUTF8 s = true) : toValidUTF8 s = s := by
  conv => rhs; rw [← flatMap_bytes_runes s]
  unfold toValidUTF8
  apply List.flatMap_congr
  intro r member
  have := List.all_eq_true.mp valid r member
  cases r <;> simp_all [Rune.sanitized]

theorem validUTF8_of_ascii {s : Bytes} (low : ∀ b ∈ s, b.val < 0x80) : validUTF8 s = true := by
  simp [validUTF8, runes_of_ascii low]

/-- `unicode.ToLower` on an ASCII byte. -/
def toLowerAscii (b : Byte) : Byte := if 0x41 ≤ b.val ∧ b.val ≤ 0x5A then b + 0x20 else b

/-- `unicode.ToUpper` on an ASCII byte. -/
def toUpperAscii (b : Byte) : Byte := if 0x61 ≤ b.val ∧ b.val ≤ 0x7A then b - 0x20 else b

/-- What `strings.Map` writes for one rune, for a case mapping given on ASCII bytes and on a
table of the multi-byte runes it sends to ASCII. Every other multi-byte rune is kept, which is
exact for the result's ASCII bytes; an ill-formed byte reads as `RuneError`, which `Map` writes
as `U+FFFD`. -/
def mapRune (onAscii : Byte → Byte) (toAscii : List (Bytes × Byte)) : Rune → Bytes
  | .ascii b => [onAscii b]
  | .multi bytes =>
    match toAscii.lookup bytes with
    | some b => [b]
    | none => bytes
  | .invalid _ => Rune.replacement

/-- `unicode.ToLower`: `U+0130` goes to `i` and `U+212A` KELVIN SIGN to `k`. -/
def lowerRune : Rune → Bytes := mapRune toLowerAscii [([0xC4, 0xB0], 0x69), ([0xE2, 0x84, 0xAA], 0x6B)]

/-- `unicode.ToUpper`: `U+0131` dotless i goes to `I` and `U+017F` long s to `S`. -/
def upperRune : Rune → Bytes := mapRune toUpperAscii [([0xC4, 0xB1], 0x49), ([0xC5, 0xBF], 0x53)]

/-- `strings.ToLower`. -/
def stringsToLower (s : Bytes) : Bytes := (runes s).flatMap lowerRune

/-- `strings.ToUpper`. -/
def stringsToUpper (s : Bytes) : Bytes := (runes s).flatMap upperRune

theorem flatMap_mapRune_of_ascii {onAscii : Byte → Byte} {toAscii : List (Bytes × Byte)} {s : Bytes}
    (low : ∀ b ∈ s, b.val < 0x80) : (runes s).flatMap (mapRune onAscii toAscii) = s.map onAscii := by
  rw [runes_of_ascii low]
  induction s with
  | nil => rfl
  | cons b rest ih => simp [mapRune, ih fun c member => low c (List.mem_cons_of_mem b member)]

theorem stringsToLower_of_ascii {s : Bytes} (low : ∀ b ∈ s, b.val < 0x80) :
    stringsToLower s = s.map toLowerAscii :=
  flatMap_mapRune_of_ascii low

theorem stringsToUpper_of_ascii {s : Bytes} (low : ∀ b ∈ s, b.val < 0x80) :
    stringsToUpper s = s.map toUpperAscii :=
  flatMap_mapRune_of_ascii low

theorem stringsToLower_append_ascii (s : Bytes) {t : Bytes} (low : ∀ b ∈ t, b.val < 0x80) :
    stringsToLower (s ++ t) = stringsToLower s ++ t.map toLowerAscii := by
  rw [stringsToLower, runes_append_ascii s low, List.flatMap_append, ← stringsToLower_of_ascii low]
  rfl

end Homecase
