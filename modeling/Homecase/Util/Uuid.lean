import Homecase.Util.Utf8
import Mathlib.Data.List.GetD
import Mathlib.Algebra.Group.Int
import Mathlib.Algebra.Group.Nat.Basic

namespace Homecase

/-! # Identifiers

`uuid.UUID` holds sixteen bytes. `String` writes them through `fmt.Sprintf` with
`%08x-%04x-%04x-%04x-%012x`: the big-endian words of the first ten bytes and the last six bytes
as a slice, all in lowercase hexadecimal. `Parse` removes every hyphen, requires 32 characters
and decodes them with `hex.DecodeString`, which takes digits of either case.

`Parse` reads back what `String` writes (`UUID.parse_string`), and for every string `Parse`
accepts, `String` writes that string without its hyphens, lowercased and regrouped 8-4-4-4-12
(`UUID.string_parse`).

`New(UUIDv7)` lays its sixteen bytes out as RFC 9562 asks, at every time and with every random
bytes: the low 48 bits of the time in milliseconds, big-endian, then the version `7` and the
variant `10` set over the random bytes, whose other 74 bits are kept (`generateUUIDv7_layout`).
-/

namespace Hex

/-- `encoding/hex`'s `reverseHexTable`: the value of a hexadecimal digit of either case. -/
def reverseHexTable (c : Byte) : Option Nat :=
  if 0x30 ≤ c.val ∧ c.val ≤ 0x39 then some (c.val - 0x30)
  else if 0x61 ≤ c.val ∧ c.val ≤ 0x66 then some (c.val - 0x61 + 10)
  else if 0x41 ≤ c.val ∧ c.val ≤ 0x46 then some (c.val - 0x41 + 10)
  else none

/-- `hex.InvalidByteError` and `hex.ErrLength`. -/
inductive DecodeError where
  | invalidByte (c : Byte)
  | length
  deriving DecidableEq, Repr

/-- `hex.DecodeString`: two digits a byte, `(a << 4) | b`, failing at the first pair with a bad
digit; a digit left over is checked, then reported as `ErrLength`. -/
def decodeString : Bytes → Except DecodeError Bytes
  | p :: q :: rest =>
    match reverseHexTable p, reverseHexTable q with
    | none, _ => .error (.invalidByte p)
    | some _, none => .error (.invalidByte q)
    | some a, some b => (decodeString rest).map (Fin.ofNat (a * 16 + b) :: ·)
  | [p] => if (reverseHexTable p).isNone then .error (.invalidByte p) else .error .length
  | [] => .ok []

end Hex

namespace Fmt

def ldigits : Bytes := ascii "0123456789abcdefx"

/-- The digits `fmtInteger` writes for `n` in base 16: `n % 16` while `n ≥ 16`, then `n`. -/
def hexDigits (n : Nat) : Bytes :=
  if n < 16 then [ldigits.getD n 0] else hexDigits (n / 16) ++ [ldigits.getD (n % 16) 0]
termination_by n
decreasing_by omega

/-- `%0wx` of an unsigned integer: the zero flag makes the width the precision, so the digits are
padded with `0` on the left up to `width`. -/
def zeroPadHex (width n : Nat) : Bytes :=
  List.replicate (width - (hexDigits n).length) 0x30 ++ hexDigits n

/-- `fmtSbx` for `%x` of a byte slice: two digits a byte, `digits[c>>4]` then `digits[c&0xF]`. -/
def sbx (bytes : Bytes) : Bytes :=
  bytes.flatMap fun c => [ldigits.getD (c.val / 16) 0, ldigits.getD (c.val % 16) 0]

/-- `%0wx` of a byte slice: the digits, padded with `0` on the left up to `width`. -/
def zeroPadSbx (width : Nat) (bytes : Bytes) : Bytes :=
  List.replicate (width - (sbx bytes).length) 0x30 ++ sbx bytes

end Fmt

/-- `binary.BigEndian.Uint32` and `Uint16`: the bytes as a big-endian number. -/
def bigEndian (bytes : Bytes) : Nat := bytes.foldl (fun value c => value * 256 + c.val) 0

def uuidSize : Nat := 16

structure UUID where
  bytes : Bytes
  size : bytes.length = uuidSize
  deriving DecidableEq

/-- `uuid.ErrInvalidFormat`, and the wrapped error of `hex.DecodeString`. -/
inductive UUIDError where
  | invalidFormat
  | hex (err : Hex.DecodeError)
  deriving DecidableEq, Repr

namespace UUID

/-- `copy(uuid.bytes[:], bytes)` into a zero `UUID`: the first sixteen bytes, zeros after a
shorter slice. -/
def copy (bytes : Bytes) : UUID :=
  ⟨(bytes ++ List.replicate uuidSize 0).take uuidSize, by simp [uuidSize]⟩

def parse (uuidStr : Bytes) : Except UUIDError UUID :=
  let uuidStr := uuidStr.filter (· ≠ 0x2D)
  if uuidStr.length ≠ uuidSize * 2 then .error .invalidFormat
  else
    match Hex.decodeString uuidStr with
    | .error err => .error (.hex err)
    | .ok bytes => .ok (copy bytes)

def string (u : UUID) : Bytes :=
  Fmt.zeroPadHex 8 (bigEndian (u.bytes.take 4)) ++ [0x2D] ++
    Fmt.zeroPadHex 4 (bigEndian ((u.bytes.drop 4).take 2)) ++ [0x2D] ++
    Fmt.zeroPadHex 4 (bigEndian ((u.bytes.drop 6).take 2)) ++ [0x2D] ++
    Fmt.zeroPadHex 4 (bigEndian ((u.bytes.drop 8).take 2)) ++ [0x2D] ++
    Fmt.zeroPadSbx 12 ((u.bytes.drop 10).take 6)

end UUID

/-- Thirty-two digits in groups of 8-4-4-4-12 with a hyphen between groups. -/
def regroup (digits : Bytes) : Bytes :=
  digits.take 8 ++ [0x2D] ++ (digits.drop 8).take 4 ++ [0x2D] ++ (digits.drop 12).take 4 ++
    [0x2D] ++ (digits.drop 16).take 4 ++ [0x2D] ++ digits.drop 20

/-- The last `width` base-16 digits of `n`, most significant first. -/
def fixedHex : Nat → Nat → Bytes
  | 0, _ => []
  | width + 1, n => fixedHex width (n / 16) ++ [Fmt.ldigits.getD (n % 16) 0]

theorem fixedHex_zero (width : Nat) : fixedHex width 0 = List.replicate width 0x30 := by
  induction width with
  | zero => rfl
  | succ width ih => rw [fixedHex, Nat.zero_div, ih, List.replicate_succ']; rfl

/-- Below `16 ^ width` the zero-padded digits `fmt` writes are the last `width` digits. -/
theorem zeroPadHex_eq_fixedHex (width : Nat) :
    ∀ n < 16 ^ (width + 1), Fmt.zeroPadHex (width + 1) n = fixedHex (width + 1) n := by
  induction width with
  | zero =>
    intro n small
    have digit : n < 16 := by simpa using small
    simp [Fmt.zeroPadHex, Fmt.hexDigits, digit, fixedHex, Nat.mod_eq_of_lt digit]
  | succ width ih =>
    intro n small
    by_cases digit : n < 16
    · rw [Fmt.zeroPadHex, Fmt.hexDigits, if_pos digit, fixedHex, Nat.div_eq_of_lt digit,
        Nat.mod_eq_of_lt digit, fixedHex_zero]
      rfl
    · have high : n / 16 < 16 ^ (width + 1) := by rw [Nat.pow_succ] at small; omega
      rw [Fmt.zeroPadHex, Fmt.hexDigits, if_neg digit, fixedHex, ← ih _ high, Fmt.zeroPadHex]
      simp only [List.length_append, List.length_singleton, List.append_assoc]
      congr 2
      omega

theorem fixedHex_add_two (width n : Nat) :
    fixedHex (width + 2) n =
      fixedHex width (n / 256) ++ [Fmt.ldigits.getD (n / 16 % 16) 0, Fmt.ldigits.getD (n % 16) 0] := by
  simp only [fixedHex, Nat.div_div_eq_div_mul, List.append_assoc, List.singleton_append]

theorem bigEndian_append (bytes : Bytes) (c : Byte) :
    bigEndian (bytes ++ [c]) = bigEndian bytes * 256 + c.val := by
  simp [bigEndian, List.foldl_append]

theorem bigEndian_lt (bytes : Bytes) : bigEndian bytes < 256 ^ bytes.length := by
  induction bytes using List.reverseRecOn with
  | nil => simp [bigEndian]
  | append_singleton bytes c ih =>
    have room := Nat.mul_le_mul_right 256 (Nat.succ_le_of_lt ih)
    rw [bigEndian_append, List.length_append, List.length_singleton, Nat.pow_succ]
    omega

theorem bigEndian_injective : ∀ {a b : Bytes}, a.length = b.length → bigEndian a = bigEndian b → a = b := by
  intro a
  induction a using List.reverseRecOn with
  | nil => intro b same _; exact (List.eq_nil_of_length_eq_zero same.symm).symm
  | append_singleton a c ih =>
    intro b same values
    obtain ⟨b, d, rfl⟩ : ∃ b' d, b = b' ++ [d] := by
      rcases List.eq_nil_or_concat b with rfl | ⟨b', d, rfl⟩
      · simp at same
      · exact ⟨b', d, List.concat_eq_append b' d⟩
    rw [bigEndian_append, bigEndian_append] at values
    have low : c = d := Fin.ext (by have := c.isLt; have := d.isLt; omega)
    have high : bigEndian a = bigEndian b := by have := c.isLt; have := d.isLt; omega
    rw [ih (by simpa using same) high, low]

@[simp] theorem sbx_length (bytes : Bytes) : (Fmt.sbx bytes).length = 2 * bytes.length := by
  induction bytes with
  | nil => rfl
  | cons c bytes ih => simp [Fmt.sbx] at ih ⊢; omega

theorem fixedHex_bigEndian (bytes : Bytes) :
    fixedHex (2 * bytes.length) (bigEndian bytes) = Fmt.sbx bytes := by
  induction bytes using List.reverseRecOn with
  | nil => rfl
  | append_singleton bytes c ih =>
    have word : (bigEndian bytes * 256 + c.val) / 256 = bigEndian bytes := by omega
    have high : (bigEndian bytes * 256 + c.val) / 16 % 16 = c.val / 16 := by omega
    have low : (bigEndian bytes * 256 + c.val) % 16 = c.val % 16 := by omega
    rw [List.length_append, List.length_singleton, Nat.mul_succ, fixedHex_add_two, bigEndian_append,
      word, high, low, ih]
    simp [Fmt.sbx, List.flatMap_append]

theorem zeroPadHex_bigEndian {bytes : Bytes} {width : Nat} (digits : 2 * bytes.length = width)
    (nonempty : bytes ≠ []) : Fmt.zeroPadHex width (bigEndian bytes) = Fmt.sbx bytes := by
  obtain ⟨count, length⟩ : ∃ count, bytes.length = count + 1 :=
    ⟨bytes.length - 1, by have := List.length_pos.mpr nonempty; omega⟩
  have bound : bigEndian bytes < 16 ^ (2 * count + 1 + 1) := by
    rw [show 2 * count + 1 + 1 = 2 * (count + 1) by omega, Nat.pow_mul, ← length]
    exact bigEndian_lt bytes
  rw [← digits, length, show 2 * (count + 1) = 2 * count + 1 + 1 by omega,
    zeroPadHex_eq_fixedHex _ _ bound, ← fixedHex_bigEndian, length]
  rfl

theorem zeroPadSbx_of_length {bytes : Bytes} {width : Nat} (digits : 2 * bytes.length = width) :
    Fmt.zeroPadSbx width bytes = Fmt.sbx bytes := by
  simp [Fmt.zeroPadSbx, ← digits]

theorem UUID.string_eq_regroup (u : UUID) : u.string = regroup (Fmt.sbx u.bytes) := by
  obtain ⟨bytes, size⟩ := u
  match bytes, size with
  | [b0, b1, b2, b3, b4, b5, b6, b7, b8, b9, b10, b11, b12, b13, b14, b15], _ =>
    rw [UUID.string]
    simp only [List.take, List.drop]
    rw [zeroPadHex_bigEndian (show 2 * [b0, b1, b2, b3].length = 8 from rfl) (List.cons_ne_nil _ _),
      zeroPadHex_bigEndian (show 2 * [b4, b5].length = 4 from rfl) (List.cons_ne_nil _ _),
      zeroPadHex_bigEndian (show 2 * [b6, b7].length = 4 from rfl) (List.cons_ne_nil _ _),
      zeroPadHex_bigEndian (show 2 * [b8, b9].length = 4 from rfl) (List.cons_ne_nil _ _),
      zeroPadSbx_of_length (show 2 * [b10, b11, b12, b13, b14, b15].length = 12 from rfl)]
    rfl

theorem ldigits_ne_hyphen (n : Nat) : Fmt.ldigits.getD n 0 ≠ 0x2D := by
  by_cases small : n < 17
  · have digits : ∀ n < 17, Fmt.ldigits.getD n 0 ≠ 0x2D := by decide
    exact digits n small
  · rw [List.getD_eq_default _ _ (by simp [Fmt.ldigits, ascii]; omega)]
    decide

theorem sbx_ne_hyphen (bytes : Bytes) : ∀ c ∈ Fmt.sbx bytes, c ≠ 0x2D := by
  simp only [Fmt.sbx, List.mem_flatMap, List.mem_cons, List.mem_singleton, List.not_mem_nil,
    or_false]
  rintro c ⟨b, -, rfl | rfl⟩ <;> exact ldigits_ne_hyphen _

theorem take_append_drop_add (l : Bytes) (n k : Nat) :
    (l.drop n).take k ++ l.drop (n + k) = l.drop n := by
  rw [← List.drop_drop, List.take_append_drop]

theorem filter_regroup {digits : Bytes} (noHyphen : ∀ c ∈ digits, c ≠ 0x2D) :
    (regroup digits).filter (· ≠ 0x2D) = digits := by
  have kept (part : Bytes) (sub : part ⊆ digits) : part.filter (· ≠ 0x2D) = part :=
    List.filter_eq_self.mpr fun c member => by simpa using noHyphen c (sub member)
  have hyphen : [(0x2D : Byte)].filter (· ≠ 0x2D) = [] := rfl
  simp only [regroup, List.filter_append, hyphen, List.append_nil,
    kept _ (List.take_subset _ _),
    kept _ fun _ member => List.mem_of_mem_drop (List.mem_of_mem_take member),
    kept _ (List.drop_subset _ _)]
  have fourth : (digits.drop 16).take 4 ++ digits.drop 20 = digits.drop 16 :=
    take_append_drop_add digits 16 4
  have third : (digits.drop 12).take 4 ++ digits.drop 16 = digits.drop 12 :=
    take_append_drop_add digits 12 4
  have second : (digits.drop 8).take 4 ++ digits.drop 12 = digits.drop 8 :=
    take_append_drop_add digits 8 4
  simp only [List.append_assoc, fourth, third, second, List.take_append_drop]

theorem reverseHexTable_ldigits : ∀ n < 16, Hex.reverseHexTable (Fmt.ldigits.getD n 0) = some n := by
  decide

set_option maxRecDepth 4000 in
/-- A digit `hex.DecodeString` takes is ASCII, and `fmt` writes its value as its lowercase. -/
theorem reverseHexTable_digit :
    ∀ c : Byte, ∀ a ∈ Hex.reverseHexTable c,
      a < 16 ∧ Fmt.ldigits.getD a 0 = toLowerAscii c ∧ c.val < 0x80 := by
  decide

theorem decodeString_sbx (bytes : Bytes) : Hex.decodeString (Fmt.sbx bytes) = .ok bytes := by
  induction bytes with
  | nil => rfl
  | cons c bytes ih =>
    have := c.isLt
    have byte : (Fin.ofNat (c.val / 16 * 16 + c.val % 16) : Byte) = c :=
      Fin.ext (by simp only [Fin.ofNat, Fin.val_mk]; omega)
    simp only [Fmt.sbx, List.flatMap_cons, List.cons_append, List.nil_append] at ih ⊢
    simp only [Hex.decodeString, reverseHexTable_ldigits _ (show c.val / 16 < 16 by omega),
      reverseHexTable_ldigits _ (show c.val % 16 < 16 by omega), ih, byte]
    rfl

theorem decodeString_eq_ok : ∀ {digits bytes : Bytes}, Hex.decodeString digits = .ok bytes →
    Fmt.sbx bytes = digits.map toLowerAscii ∧ ∀ c ∈ digits, c.val < 0x80
  | [], _, decoded => by cases decoded; exact ⟨rfl, nofun⟩
  | [p], _, decoded => by
    simp only [Hex.decodeString] at decoded
    split at decoded <;> cases decoded
  | p :: q :: rest, bytes, decoded => by
    simp only [Hex.decodeString] at decoded
    split at decoded
    · cases decoded
    · cases decoded
    · rename_i a b high low
      cases tail : Hex.decodeString rest with
      | error err => simp [tail, Except.map] at decoded
      | ok front =>
        simp only [tail, Except.map, Except.ok.injEq] at decoded
        subst decoded
        obtain ⟨small, hexHigh, asciiHigh⟩ := reverseHexTable_digit p a high
        obtain ⟨small', hexLow, asciiLow⟩ := reverseHexTable_digit q b low
        obtain ⟨digits, ascii⟩ := decodeString_eq_ok tail
        have byte : (Fin.ofNat (a * 16 + b) : Byte).val = a * 16 + b := by
          simp only [Fin.ofNat, Fin.val_mk]; omega
        refine ⟨?_, ?_⟩
        · simp only [Fmt.sbx, List.flatMap_cons, List.map_cons] at digits ⊢
          rw [byte, show (a * 16 + b) / 16 = a by omega, show (a * 16 + b) % 16 = b by omega,
            hexHigh, hexLow, digits]
          rfl
        · simp only [List.mem_cons]
          rintro c (rfl | rfl | member)
          exacts [asciiHigh, asciiLow, ascii c member]

theorem UUID.copy_bytes {bytes : Bytes} (size : bytes.length = uuidSize) : (copy bytes).bytes = bytes :=
  List.take_left' size

theorem UUID.ext {u v : UUID} (same : u.bytes = v.bytes) : u = v := by
  cases u; cases v; cases same; rfl

/-- `Parse` reads back every `UUID` that `String` writes. -/
theorem UUID.parse_string (u : UUID) : parse u.string = .ok u := by
  have clean : u.string.filter (· ≠ 0x2D) = Fmt.sbx u.bytes := by
    rw [string_eq_regroup, filter_regroup (sbx_ne_hyphen _)]
  have digits : (u.string.filter (· ≠ 0x2D)).length = uuidSize * 2 := by
    rw [clean, sbx_length, u.size, Nat.mul_comm]
  rw [parse, if_neg (not_not_intro digits), clean, decodeString_sbx]
  exact congrArg Except.ok (UUID.ext (copy_bytes u.size))

/-- For every string `Parse` accepts, `String` of the result is the string without its hyphens,
lowercased and regrouped 8-4-4-4-12. -/
theorem UUID.string_parse {uuidStr : Bytes} {u : UUID} (parsed : parse uuidStr = .ok u) :
    u.string = regroup (stringsToLower (uuidStr.filter (· ≠ 0x2D))) := by
  simp only [parse] at parsed
  split_ifs at parsed with length
  split at parsed
  · cases parsed
  · rename_i bytes decoded
    cases parsed
    obtain ⟨digits, ascii⟩ := decodeString_eq_ok decoded
    have size : bytes.length = uuidSize := by
      have := congrArg List.length digits
      simp only [sbx_length, List.length_map] at this
      have length : _ = uuidSize * 2 := Decidable.of_not_not length
      simp only [uuidSize] at length ⊢
      omega
    rw [string_eq_regroup, copy_bytes size, digits, stringsToLower_of_ascii ascii]

/-- `Parse` and `String` are inverse: every `UUID` is read back from what `String` writes, and
every string `Parse` accepts comes back from `String` without hyphens, lowercased and regrouped. -/
theorem UUID.string_roundtrip :
    (∀ u : UUID, parse u.string = .ok u) ∧
      ∀ (uuidStr : Bytes) (u : UUID), parse uuidStr = .ok u →
        u.string = regroup (stringsToLower (uuidStr.filter (· ≠ 0x2D))) :=
  ⟨parse_string, fun _ _ parsed => string_parse parsed⟩

theorem UUID.string_roundtrip_mixed_case :
    let u : UUID := ⟨[0x01, 0x23, 0x45, 0x67, 0x89, 0xAB, 0xCD, 0xEF, 0x01, 0x23, 0x45, 0x67, 0x89,
      0xAB, 0xCD, 0xEF], rfl⟩
    parse (ascii "0123-4567-89AB-CDEF-0123456789ABCDEF") = .ok u ∧
      u.string = regroup (stringsToLower
        ((ascii "0123-4567-89AB-CDEF-0123456789ABCDEF").filter (· ≠ 0x2D))) :=
  have parsed : parse (ascii "0123-4567-89AB-CDEF-0123456789ABCDEF") =
      .ok ⟨[0x01, 0x23, 0x45, 0x67, 0x89, 0xAB, 0xCD, 0xEF, 0x01, 0x23, 0x45, 0x67, 0x89, 0xAB,
        0xCD, 0xEF], rfl⟩ := rfl
  ⟨parsed, string_roundtrip.2 _ _ parsed⟩

/-- `byte(x)` of an `int64`: its low eight bits. -/
def lowByte (x : Int) : Byte := Fin.ofNat (x % 256).toNat

theorem lowByte_ofNat (value : Nat) : lowByte value = Fin.ofNat value := by
  simp only [lowByte, Fin.ofNat]
  congr 1
  omega

/-- `generateUUIDv7` at the Unix time `now` in milliseconds, with the ten bytes `rand.Read` writes
after the timestamp; its panic when `rand.Read` fails is left out. -/
def UUID.generateUUIDv7 (now : Int) (random : Bytes) (size : random.length = 10) : UUID :=
  ⟨[lowByte (now / 2 ^ 40), lowByte (now / 2 ^ 32), lowByte (now / 2 ^ 24), lowByte (now / 2 ^ 16),
      lowByte (now / 2 ^ 8), lowByte now] ++
    (random.set 0 ((random.getD 0 0 &&& 0x0F) ||| 0x70)).set 2 ((random.getD 2 0 &&& 0x3F) ||| 0x80),
    by simp [size, uuidSize]⟩

def uuidV7 : Int := 7

/-- The error of `uuid.New`: `ErrUnknownVersion` with the version it was given. -/
inductive NewError where
  | unknownVersion (version : Int)
  deriving DecidableEq, Repr

/-- `uuid.New`, at the time and with the random bytes a version 7 identifier is made from. -/
def UUID.new (version now : Int) (random : Bytes) (size : random.length = 10) : Except NewError UUID :=
  if version = uuidV7 then .ok (generateUUIDv7 now random size) else .error (.unknownVersion version)

theorem lowByte_val (x : Int) : ((lowByte x).val : Int) = x % 256 := by
  simp only [lowByte, Fin.ofNat]
  omega

theorem bigEndian_timestamp (now : Int) :
    (bigEndian [lowByte (now / 2 ^ 40), lowByte (now / 2 ^ 32), lowByte (now / 2 ^ 24),
      lowByte (now / 2 ^ 16), lowByte (now / 2 ^ 8), lowByte now] : Int) = now % 2 ^ 48 := by
  simp only [bigEndian, List.foldl_cons, List.foldl_nil, Int.natCast_add, Int.natCast_mul, lowByte_val]
  omega

/-- `(b & 0x0F) | 0x70`: the version nibble over the low four bits. -/
theorem versionByte_val (x : Byte) : ((x &&& 0x0F) ||| 0x70 : Byte).val = 0x70 + x.val % 16 := by
  obtain ⟨v, small⟩ := x
  show ((v &&& 15) % 256 ||| 112) % 256 = 112 + v % 16
  rw [(Nat.and_pow_two_sub_one_eq_mod v 4 : v &&& 15 = v % 16), Nat.mod_eq_of_lt (by omega : v % 16 < 256),
    Nat.or_comm, ← (Nat.mul_add_lt_is_or (by omega : v % 16 < 2 ^ 4) 7 : 112 + v % 16 = 112 ||| v % 16)]
  omega

/-- `(b & 0x3F) | 0x80`: the variant bits over the low six bits. -/
theorem variantByte_val (x : Byte) : ((x &&& 0x3F) ||| 0x80 : Byte).val = 0x80 + x.val % 64 := by
  obtain ⟨v, small⟩ := x
  show ((v &&& 63) % 256 ||| 128) % 256 = 128 + v % 64
  rw [(Nat.and_pow_two_sub_one_eq_mod v 6 : v &&& 63 = v % 64), Nat.mod_eq_of_lt (by omega : v % 64 < 256),
    Nat.or_comm, ← (Nat.mul_add_lt_is_or (by omega : v % 64 < 2 ^ 6) 2 : 128 + v % 64 = 128 ||| v % 64)]
  omega

/-- Every version 7 UUID starts with the low 48 bits of its time, big-endian; byte 6 holds the
version `7` over the low nibble of the first random byte, byte 8 the variant `10` over the low six
bits of the third, and the other random bytes are kept as they are. -/
theorem generateUUIDv7_layout (now : Int) (random : Bytes) (size : random.length = 10) :
    (bigEndian ((UUID.generateUUIDv7 now random size).bytes.take 6) : Int) = now % 2 ^ 48 ∧
      ((UUID.generateUUIDv7 now random size).bytes.getD 6 0).val = 0x70 + (random.getD 0 0).val % 16 ∧
      ((UUID.generateUUIDv7 now random size).bytes.getD 8 0).val = 0x80 + (random.getD 2 0).val % 64 ∧
      ∀ i, i ≠ 0 → i ≠ 2 → (UUID.generateUUIDv7 now random size).bytes.getD (6 + i) 0 = random.getD i 0 := by
  have tail (i : Nat) : (UUID.generateUUIDv7 now random size).bytes.getD (6 + i) 0 =
      ((random.set 0 ((random.getD 0 0 &&& 0x0F) ||| 0x70)).set 2
        ((random.getD 2 0 &&& 0x3F) ||| 0x80)).getD i 0 := by
    simp only [UUID.generateUUIDv7, List.getD_eq_getElem?_getD]
    rw [List.getElem?_append_right (by simp)]
    simp
  refine ⟨by rw [UUID.generateUUIDv7]; exact bigEndian_timestamp now, ?_, ?_, fun i first third => ?_⟩
  · rw [tail 0, ← versionByte_val]
    simp [List.getD_eq_getElem?_getD, List.getElem?_set, size]
  · rw [tail 2, ← variantByte_val]
    simp [List.getD_eq_getElem?_getD, List.getElem?_set, size]
  · rw [tail i]
    simp [List.getD_eq_getElem?_getD, List.getElem?_set, Ne.symm first, Ne.symm third]

theorem generateUUIDv7_layout_ones :
    (List.replicate 10 (0xFF : Byte)).length = 10 ∧
      (bigEndian ((UUID.generateUUIDv7 1700000000000 (List.replicate 10 0xFF) rfl).bytes.take 6) : Int) =
        1700000000000 % 2 ^ 48 ∧
      ((UUID.generateUUIDv7 1700000000000 (List.replicate 10 0xFF) rfl).bytes.getD 6 0).val =
        0x70 + ((List.replicate 10 (0xFF : Byte)).getD 0 0).val % 16 ∧
      ((UUID.generateUUIDv7 1700000000000 (List.replicate 10 0xFF) rfl).bytes.getD 8 0).val =
        0x80 + ((List.replicate 10 (0xFF : Byte)).getD 2 0).val % 64 ∧
      ∀ i, i ≠ 0 → i ≠ 2 → (UUID.generateUUIDv7 1700000000000 (List.replicate 10 0xFF) rfl).bytes.getD (6 + i) 0 =
        (List.replicate 10 (0xFF : Byte)).getD i 0 :=
  ⟨rfl, generateUUIDv7_layout 1700000000000 (List.replicate 10 0xFF) rfl⟩

end Homecase
