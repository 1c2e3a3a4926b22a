import Homecase.Util.Utf8

namespace Homecase.Json

/-! # Strings and integers in `encoding/json`

`quote` is what `json.Marshal` writes for a Go string (`appendString` with HTML escaping on),
and `parseString` is what `json.Unmarshal` reads back (the scanner's string states together with
`unquote`). A string read back is the string written with its ill-formed bytes replaced by
`U+FFFD` (`parseString_quote`). Integers are written by `strconv.AppendInt` and read by
`parseInt`.
-/

/-- `htmlSafeSet`: the ASCII bytes `json.Marshal` writes as they are. -/
def htmlSafe (b : Byte) : Bool :=
  0x20 ≤ b.val && b.val != 0x22 && b.val != 0x5C && b.val != 0x3C && b.val != 0x3E &&
    b.val != 0x26

/-- `encoding/json`'s `hex` table. -/
def hexDigit (n : Nat) : Byte := (ascii "0123456789abcdef").getD n 0

/-- The escape `appendString` writes for an ASCII byte outside `htmlSafeSet`. -/
def escapeAscii (b : Byte) : Bytes :=
  if b.val = 0x5C ∨ b.val = 0x22 then [0x5C, b]
  else if b.val = 0x08 then ascii "\\b"
  else if b.val = 0x0C then ascii "\\f"
  else if b.val = 0x0A then ascii "\\n"
  else if b.val = 0x0D then ascii "\\r"
  else if b.val = 0x09 then ascii "\\t"
  else ascii "\\u00" ++ [hexDigit (b.val / 16), hexDigit (b.val % 16)]

/-- `U+2028` and `U+2029`, which `appendString` escapes for JSONP. -/
def lineSeparator : Bytes := [0xE2, 0x80, 0xA8]

def paragraphSeparator : Bytes := [0xE2, 0x80, 0xA9]

/-- What `appendString` writes for one rune of its input. -/
def quoteRune : Rune → Bytes
  | .ascii b => if htmlSafe b then [b] else escapeAscii b
  | .invalid _ => ascii "\\ufffd"
  | .multi bytes =>
    if bytes = lineSeparator then ascii "\\u2028"
    else if bytes = paragraphSeparator then ascii "\\u2029"
    else bytes

def quoteBody (s : Bytes) : Bytes := (runes s).flatMap quoteRune

/-- `appendString(dst, s, true)`: the JSON string literal for `s`. -/
def quote (s : Bytes) : Bytes := 0x22 :: quoteBody s ++ [0x22]

def hexValue (b : Byte) : Option Nat :=
  if 0x30 ≤ b.val ∧ b.val ≤ 0x39 then some (b.val - 0x30)
  else if 0x61 ≤ b.val ∧ b.val ≤ 0x66 then some (b.val - 0x61 + 10)
  else if 0x41 ≤ b.val ∧ b.val ≤ 0x46 then some (b.val - 0x41 + 10)
  else none

/-- `getu4`: the value of the escape `\uXXXX` at the head of the input. -/
def getu4 : Bytes → Option Nat
  | b0 :: b1 :: h0 :: h1 :: h2 :: h3 :: _ =>
    if b0.val = 0x5C ∧ b1.val = 0x75 then do
      return (← hexValue h0) * 0x1000 + (← hexValue h1) * 0x100 + (← hexValue h2) * 0x10 +
        (← hexValue h3)
    else none
  | _ => none

def simpleEscape (e : Byte) : Option Byte :=
  if e.val = 0x22 ∨ e.val = 0x5C ∨ e.val = 0x2F then some e
  else if e.val = 0x62 then some 0x08
  else if e.val = 0x66 then some 0x0C
  else if e.val = 0x6E then some 0x0A
  else if e.val = 0x72 then some 0x0D
  else if e.val = 0x74 then some 0x09
  else none

/-- `utf16.DecodeRune`: the code point of a surrogate pair, `U+FFFD` when there is none. -/
def decodeSurrogates (high : Nat) : Option Nat → Nat
  | some low =>
    if 0xD800 ≤ high ∧ high < 0xDC00 ∧ 0xDC00 ≤ low ∧ low < 0xE000 then
      (high - 0xD800) * 0x400 + (low - 0xDC00) + 0x10000
    else 0xFFFD
  | none => 0xFFFD

def prepend (decoded : Bytes) : Option (Bytes × Bytes) → Option (Bytes × Bytes) :=
  Option.map fun (more, after) => (decoded ++ more, after)

/-- The body of a string literal after its opening quote, read as the scanner and `unquote`
of `encoding/json` read it, for at most `fuel` steps: the decoded bytes and the input after the
closing quote, or `none` on a syntax error. An ill-formed byte is read as `U+FFFD`, and so is an
unpaired surrogate. -/
def parseStringFuel : Nat → Bytes → Option (Bytes × Bytes)
  | 0, _ => none
  | _ + 1, [] => none
  | fuel + 1, c :: rest =>
    if c.val = 0x22 then some ([], rest)
    else if c.val = 0x5C then
      match rest with
      | e :: tail =>
        if e.val = 0x75 then
          match getu4 (c :: rest) with
          | none => none
          | some r =>
            if 0xD800 ≤ r ∧ r < 0xE000 then
              let pair := decodeSurrogates r (getu4 (tail.drop 4))
              if pair ≠ 0xFFFD then prepend (encodeRune pair) (parseStringFuel fuel (tail.drop 10))
              else prepend (encodeRune 0xFFFD) (parseStringFuel fuel (tail.drop 4))
            else prepend (encodeRune r) (parseStringFuel fuel (tail.drop 4))
        else match simpleEscape e with
          | some d => prepend [d] (parseStringFuel fuel tail)
          | none => none
      | [] => none
    else if c.val < 0x20 then none
    else if c.val < 0x80 then prepend [c] (parseStringFuel fuel rest)
    else match decodeRuneWidth (c :: rest) with
      | some width => prepend (c :: rest.take (width - 1)) (parseStringFuel fuel (rest.drop (width - 1)))
      | none => prepend Rune.replacement (parseStringFuel fuel rest)

/-- The string literal's body read to its end: every step reads a byte at least. -/
def parseString (input : Bytes) : Option (Bytes × Bytes) := parseStringFuel input.length input

def digit (n : Nat) : Byte := Fin.ofNat (0x30 + n)

def isDigit (b : Byte) : Bool := 0x30 ≤ b.val && b.val ≤ 0x39

/-- `strconv.AppendUint(dst, n, 10)` with at most `fuel + 1` digits. -/
def formatNatFuel : Nat → Nat → Bytes
  | 0, n => [digit n]
  | fuel + 1, n => if n < 10 then [digit n] else formatNatFuel fuel (n / 10) ++ [digit (n % 10)]

/-- `strconv.AppendUint(dst, n, 10)`: `n` has at most `n + 1` digits. -/
def formatNat (n : Nat) : Bytes := formatNatFuel n n

/-- `strconv.AppendInt(dst, n, 10)`, also what `fmt`'s `%d` writes. -/
def formatInt : Int → Bytes
  | .ofNat n => formatNat n
  | .negSucc n => 0x2D :: formatNat (n + 1)

def spanDigits : Bytes → Bytes × Bytes
  | [] => ([], [])
  | b :: rest => if isDigit b then ((spanDigits rest).1.cons b, (spanDigits rest).2) else ([], b :: rest)

def digitsValue (digits : Bytes) : Nat := digits.foldl (fun value d => value * 10 + (d.val - 0x30)) 0

/-- A number literal at the head of the input read into an `int64` field. -/
def parseInt : Bytes → Option (Int × Bytes)
  | [] => none
  | b :: rest =>
    if b.val = 0x2D then
      match spanDigits rest with
      | ([], _) => none
      | (digits, after) => some (-(digitsValue digits : Int), after)
    else
      match spanDigits (b :: rest) with
      | ([], _) => none
      | (digits, after) => some (digitsValue digits, after)

theorem parseStringFuel_congr {fuel fuel' : Nat} {input : Bytes} (enough : input.length ≤ fuel)
    (enough' : input.length ≤ fuel') : parseStringFuel fuel input = parseStringFuel fuel' input := by
  induction fuel generalizing fuel' input with
  | zero =>
    obtain rfl : input = [] := List.eq_nil_of_length_eq_zero (Nat.le_zero.mp enough)
    cases fuel' <;> rfl
  | succ fuel ih =>
    match input, fuel' with
    | [], 0 => rfl
    | [], _ + 1 => rfl
    | c :: rest, fuel' + 1 =>
      simp only [List.length_cons] at enough enough'
      have dropped (k : Nat) : parseStringFuel fuel (rest.drop k) = parseStringFuel fuel' (rest.drop k) :=
        ih (by simp only [List.length_drop]; omega) (by simp only [List.length_drop]; omega)
      have whole : parseStringFuel fuel rest = parseStringFuel fuel' rest := dropped 0
      cases rest with
      | nil => simp only [parseStringFuel, whole, dropped]
      | cons e tail =>
        have inner (k : Nat) : parseStringFuel fuel (tail.drop k) = parseStringFuel fuel' (tail.drop k) :=
          dropped (k + 1)
        have tailed : parseStringFuel fuel tail = parseStringFuel fuel' tail := dropped 1
        simp only [parseStringFuel, whole, inner, tailed, dropped]

@[simp] theorem parseString_nil : parseString [] = none := rfl

theorem parseString_cons (c : Byte) (rest : Bytes) :
    parseString (c :: rest) =
      if c.val = 0x22 then some ([], rest)
      else if c.val = 0x5C then
        match rest with
        | e :: tail =>
          if e.val = 0x75 then
            match getu4 (c :: rest) with
            | none => none
            | some r =>
              if 0xD800 ≤ r ∧ r < 0xE000 then
                let pair := decodeSurrogates r (getu4 (tail.drop 4))
                if pair ≠ 0xFFFD then prepend (encodeRune pair) (parseString (tail.drop 10))
                else prepend (encodeRune 0xFFFD) (parseString (tail.drop 4))
              else prepend (encodeRune r) (parseString (tail.drop 4))
          else match simpleEscape e with
            | some d => prepend [d] (parseString tail)
            | none => none
        | [] => none
      else if c.val < 0x20 then none
      else if c.val < 0x80 then prepend [c] (parseString rest)
      else match decodeRuneWidth (c :: rest) with
        | some width => prepend (c :: rest.take (width - 1)) (parseString (rest.drop (width - 1)))
        | none => prepend Rune.replacement (parseString rest) := by
  conv_lhs => rw [parseString, List.length_cons, parseStringFuel.eq_def]
  cases rest with
  | nil => rfl
  | cons e tail =>
    have dropped (k : Nat) : parseStringFuel (e :: tail).length ((e :: tail).drop k) =
        parseString ((e :: tail).drop k) :=
      parseStringFuel_congr (by simp only [List.length_drop]; omega) le_rfl
    have inner (k : Nat) : parseStringFuel (e :: tail).length (tail.drop k) = parseString (tail.drop k) :=
      dropped (k + 1)
    have tailed : parseStringFuel (e :: tail).length tail = parseString tail := dropped 1
    have whole : parseStringFuel (e :: tail).length (e :: tail) = parseString (e :: tail) := dropped 0
    simp only [inner, tailed, whole, dropped]

theorem parseString_plain {c : Byte} (rest : Bytes) (notQuote : c.val ≠ 0x22)
    (notBackslash : c.val ≠ 0x5C) (printable : 0x20 ≤ c.val) (low : c.val < 0x80) :
    parseString (c :: rest) = prepend [c] (parseString rest) := by
  rw [parseString_cons]
  simp [notQuote, notBackslash, low, show ¬ c.val < 0x20 by omega]

theorem parseString_escape {e d : Byte} (tail : Bytes) (notU : e.val ≠ 0x75)
    (escaped : simpleEscape e = some d) :
    parseString (0x5C :: e :: tail) = prepend [d] (parseString tail) := by
  rw [parseString_cons]
  simp [notU, escaped]

theorem parseString_u4 {r : Nat} {h0 h1 h2 h3 : Byte} (rest : Bytes)
    (read : getu4 [0x5C, 0x75, h0, h1, h2, h3] = some r) (single : ¬ (0xD800 ≤ r ∧ r < 0xE000)) :
    parseString (0x5C :: 0x75 :: h0 :: h1 :: h2 :: h3 :: rest) =
      prepend (encodeRune r) (parseString rest) := by
  have fromHead : getu4 (0x5C :: 0x75 :: h0 :: h1 :: h2 :: h3 :: rest) = some r := by
    simpa [getu4] using read
  rw [parseString_cons]
  simp [fromHead, single]

theorem hexValue_hexDigit : ∀ k < 16, hexValue (hexDigit k) = some k := by decide

theorem parseString_escapeAscii {b : Byte} (low : b.val < 0x80) (more : Bytes) :
    parseString (escapeAscii b ++ more) = prepend [b] (parseString more) := by
  have named : ∀ {v : Nat} {e : Byte}, b.val = v → simpleEscape e = some (Fin.ofNat v) →
      e.val ≠ 0x75 → parseString (0x5C :: e :: more) = prepend [b] (parseString more) := by
    intro v e value escaped notU
    rw [parseString_escape more notU escaped, show (Fin.ofNat v : Byte) = b from Fin.ext (by
      simp [Fin.ofNat, ← value])]
  unfold escapeAscii
  by_cases special : b.val = 0x5C ∨ b.val = 0x22
  · rw [if_pos special]
    exact parseString_escape more (by omega) (by unfold simpleEscape; rw [if_pos (by omega)])
  rw [if_neg special]
  by_cases backspace : b.val = 0x08
  · rw [if_pos backspace]
    exact named backspace (by decide) (by decide)
  rw [if_neg backspace]
  by_cases formFeed : b.val = 0x0C
  · rw [if_pos formFeed]
    exact named formFeed (by decide) (by decide)
  rw [if_neg formFeed]
  by_cases newline : b.val = 0x0A
  · rw [if_pos newline]
    exact named newline (by decide) (by decide)
  rw [if_neg newline]
  by_cases carriage : b.val = 0x0D
  · rw [if_pos carriage]
    exact named carriage (by decide) (by decide)
  rw [if_neg carriage]
  by_cases tab : b.val = 0x09
  · rw [if_pos tab]
    exact named tab (by decide) (by decide)
  rw [if_neg tab]
  have read : getu4 [0x5C, 0x75, 0x30, 0x30, hexDigit (b.val / 16), hexDigit (b.val % 16)] =
      some b.val := by
    simp only [getu4, hexValue_hexDigit _ (show b.val / 16 < 16 by omega),
      hexValue_hexDigit _ (show b.val % 16 < 16 by omega)]
    simp [hexValue]
    omega
  have encoded : encodeRune b.val = [b] := by
    simp [encodeRune, show b.val ≤ 0x7F by omega, Fin.ofNat, Nat.mod_eq_of_lt b.isLt]
  rw [show ascii "\\u00" = [0x5C, 0x75, 0x30, 0x30] by decide]
  simpa [encoded] using parseString_u4 more read (by omega)

/-- One rune as `appendString` writes it reads back as the rune with an ill-formed byte replaced. -/
theorem parseString_quoteRune {r : Rune} (wellFormed : r.WellFormed) (more : Bytes) :
    parseString (quoteRune r ++ more) = prepend r.sanitized (parseString more) := by
  cases r with
  | ascii b =>
    simp only [Rune.WellFormed] at wellFormed
    by_cases safe : htmlSafe b
    · simp only [htmlSafe, Bool.and_eq_true, bne_iff_ne, decide_eq_true_eq] at safe
      simpa [quoteRune, htmlSafe, safe, Rune.sanitized, Rune.bytes] using
        parseString_plain more (by omega) (by omega) (by omega) wellFormed
    · simpa [quoteRune, safe, Rune.sanitized, Rune.bytes] using
        parseString_escapeAscii wellFormed more
  | invalid b =>
    rw [show quoteRune (.invalid b) = ascii "\\ufffd" from rfl,
      show ascii "\\ufffd" = [0x5C, 0x75, 0x66, 0x66, 0x66, 0x64] by decide]
    simpa [Rune.sanitized, show encodeRune 0xFFFD = Rune.replacement by decide] using
      parseString_u4 (r := 0xFFFD) more (by decide) (by decide)
  | multi bytes =>
    obtain ⟨two, decodes⟩ := wellFormed
    simp only [quoteRune]
    split_ifs with line paragraph
    · subst line
      rw [show ascii "\\u2028" = [0x5C, 0x75, 0x32, 0x30, 0x32, 0x38] by decide]
      simpa [Rune.sanitized, Rune.bytes, show encodeRune 0x2028 = lineSeparator by decide] using
        parseString_u4 (r := 0x2028) more (by decide) (by decide)
    · subst paragraph
      rw [show ascii "\\u2029" = [0x5C, 0x75, 0x32, 0x30, 0x32, 0x39] by decide]
      simpa [Rune.sanitized, Rune.bytes, show encodeRune 0x2029 = paragraphSeparator by decide]
        using parseString_u4 (r := 0x2029) more (by decide) (by decide)
    · match bytes, two, decodes with
      | c :: tail, two, decodes =>
        have lead := decodeRuneWidth_lead (decodes [])
        rw [List.cons_append, parseString_cons]
        simp only [List.cons_append] at decodes
        simp [show c.val ≠ 0x22 by omega, show c.val ≠ 0x5C by omega,
          show ¬ c.val < 0x20 by omega, show ¬ c.val < 0x80 by omega, decodes more,
          Rune.sanitized, Rune.bytes]

theorem parseString_runes {rs : List Rune} (wellFormed : ∀ r ∈ rs, r.WellFormed) (rest : Bytes) :
    parseString (rs.flatMap quoteRune ++ 0x22 :: rest) = some (rs.flatMap Rune.sanitized, rest) := by
  induction rs with
  | nil => simp [parseString_cons]
  | cons r rs ih =>
    simp only [List.flatMap_cons, List.append_assoc]
    rw [parseString_quoteRune (wellFormed r (by simp)) _,
      ih fun r' member => wellFormed r' (by simp [member])]
    rfl

/-- `json.Unmarshal` of the literal `json.Marshal` writes for a string gives the string with its
ill-formed bytes replaced by `U+FFFD`, and leaves the input after the literal untouched. -/
theorem parseString_quote (s rest : Bytes) :
    parseString ((quote s).tail ++ rest) = some (toValidUTF8 s, rest) := by
  simpa [quote, quoteBody, toValidUTF8] using parseString_runes (runes_wellFormed s) rest

theorem formatNatFuel_congr {fuel fuel' n : Nat} (enough : n ≤ fuel) (enough' : n ≤ fuel') :
    formatNatFuel fuel n = formatNatFuel fuel' n := by
  induction fuel generalizing fuel' n with
  | zero => cases fuel' <;> simp [formatNatFuel, show n = 0 by omega]
  | succ fuel ih =>
    cases fuel' with
    | zero => simp [formatNatFuel, show n = 0 by omega]
    | succ fuel' =>
      simp only [formatNatFuel]
      split_ifs
      · rfl
      · exact congrArg (· ++ _) (ih (by omega) (by omega))

theorem formatNat_eq (n : Nat) :
    formatNat n = if n < 10 then [digit n] else formatNat (n / 10) ++ [digit (n % 10)] := by
  cases n with
  | zero => rfl
  | succ n =>
    simp only [formatNat, formatNatFuel]
    split_ifs
    · rfl
    · rw [formatNatFuel_congr (by omega) le_rfl]

theorem formatNat_isDigit (n : Nat) : ∀ b ∈ formatNat n, isDigit b := by
  induction n using Nat.strong_induction_on with
  | _ n ih =>
    rw [formatNat_eq]
    split_ifs with small
    · simp [isDigit, digit, Fin.ofNat]
      omega
    · simp only [List.mem_append, List.mem_singleton]
      rintro b (member | rfl)
      · exact ih (n / 10) (by omega) b member
      · simp [isDigit, digit, Fin.ofNat]
        omega

theorem formatNat_ne_nil (n : Nat) : formatNat n ≠ [] := by
  rw [formatNat_eq]
  split_ifs <;> simp

theorem digitsValue_formatNat (n : Nat) : digitsValue (formatNat n) = n := by
  induction n using Nat.strong_induction_on with
  | _ n ih =>
    rw [formatNat_eq]
    split_ifs with small
    · simp [digitsValue, digit, Fin.ofNat]
      omega
    · have shorter := ih (n / 10) (by omega)
      simp only [digitsValue, List.foldl_append, List.foldl_cons, List.foldl_nil] at shorter ⊢
      rw [shorter]
      simp [digit, Fin.ofNat]
      omega

def EndsNumber (rest : Bytes) : Prop := ∀ b ∈ rest.head?, isDigit b = false

theorem spanDigits_append {digits : Bytes} (allDigits : ∀ b ∈ digits, isDigit b)
    {rest : Bytes} (stop : EndsNumber rest) : spanDigits (digits ++ rest) = (digits, rest) := by
  induction digits with
  | nil =>
    match rest, stop with
    | [], _ => rfl
    | b :: rest, stop => simp [spanDigits, stop b rfl]
  | cons d digits ih =>
    simp only [List.mem_cons, forall_eq_or_imp] at allDigits
    simp [spanDigits, allDigits.1, ih allDigits.2]

theorem parseInt_formatInt (n : Int) {rest : Bytes} (stop : EndsNumber rest) :
    parseInt (formatInt n ++ rest) = some (n, rest) := by
  cases n with
  | ofNat n =>
    obtain ⟨first, tail, split⟩ := List.exists_cons_of_ne_nil (formatNat_ne_nil n)
    have leading : (first :: tail).head? = some first := rfl
    have notMinus : first.val ≠ 0x2D := by
      have := formatNat_isDigit n first (by simp [split])
      simp [isDigit] at this
      omega
    have spanned := spanDigits_append (formatNat_isDigit n) stop
    rw [split] at spanned
    simp only [formatInt, split, List.cons_append, parseInt, notMinus, if_false]
    rw [← List.cons_append, spanned]
    simp [← split, digitsValue_formatNat]
  | negSucc n =>
    have spanned := spanDigits_append (formatNat_isDigit (n + 1)) stop
    obtain ⟨first, tail, split⟩ := List.exists_cons_of_ne_nil (formatNat_ne_nil (n + 1))
    rw [split, List.cons_append] at spanned
    simp only [formatInt, split, List.cons_append, parseInt]
    simp only [show (0x2D : Byte).val = 0x2D from rfl, if_true, spanned]
    rw [← split, digitsValue_formatNat]
    rfl

end Homecase.Json
