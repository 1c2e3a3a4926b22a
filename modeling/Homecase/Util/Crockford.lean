import Homecase.Util.Utf8
import Mathlib.Data.List.GetD
import Mathlib.Data.List.Nodup
import Mathlib.Algebra.Group.Nat.Basic
import Mathlib.Data.List.Lex

namespace Homecase

/-! # Crockford Base32

`encodeCrockfordB32LC` follows `encoding.EncodeCrockfordB32LC` step by step: a bit accumulator
(`accum`, a Go `int`, so it wraps at 64 bits) takes eight bits per input byte, every complete
five-bit group is written out, a last partial group is padded with zero bits, and the result is
lowercased. Content hashes and media ids are such encodings of SHA-256 digests.

The encoding keeps the order of byte strings of one length: the alphabet increases, so an input
whose bits come first lexicographically is written first (`encodeCrockfordB32LC_lex`).

`crockfordReference` is Crockford's Base32 by its definition, on the bits of the input. The
encoder keeps the bits not yet written in an accumulator that wraps at 64 bits; it never holds
more than twelve of them, so the wrap never reaches a group (`foldl_encodeStep_groups`).
-/

def crockfordBase32Alphabet : Bytes := ascii "0123456789ABCDEFGHJKMNPQRSTVWXYZ"

/-- The alphabet `EncodeCrockfordB32LC` writes once lowercased. -/
def crockfordLowercase : Bytes := ascii "0123456789abcdefghjkmnpqrstvwxyz"

/-- The inner loop `for bits >= 5 { bits -= 5; result.WriteByte(alphabet[(accum>>bits)&0x1F]) }`:
the groups written and the bits left over. -/
def emitGroups (accum : Nat) : Nat → Bytes × Nat
  | bits + 5 =>
    (crockfordBase32Alphabet.getD (accum / 2 ^ bits % 32) 0 :: (emitGroups accum bits).1,
      (emitGroups accum bits).2)
  | bits => ([], bits)

/-- One pass of the outer loop: `accum = accum<<8 | int(b); bits += 8`, then the inner loop.
The state is `(result, bits, accum)`. -/
def encodeStep (state : Bytes × Nat × Nat) (b : Byte) : Bytes × Nat × Nat :=
  let accum := (state.2.2 * 256 + b.val) % 2 ^ 64
  let groups := emitGroups accum (state.2.1 + 8)
  (state.1 ++ groups.1, groups.2, accum)

def encodeCrockfordB32LC (input : Bytes) : Bytes :=
  let (result, bits, accum) := input.foldl encodeStep ([], 0, 0)
  let padded :=
    if bits > 0 then result ++ [crockfordBase32Alphabet.getD (accum * 2 ^ (5 - bits) % 32) 0]
    else result
  padded.map toLowerAscii

example : encodeCrockfordB32LC [0xF5, 0x3A, 0x58, 0x9B, 0xC4] = ascii "ymx5h6y4" := by decide

theorem alphabet_getD_mem {index : Nat} (small : index < 32) :
    crockfordBase32Alphabet.getD index 0 ∈ crockfordBase32Alphabet := by
  rw [List.getD_eq_getElem _ _ (by rw [show crockfordBase32Alphabet.length = 32 from rfl]; omega)]
  exact List.getElem_mem _

theorem emitGroups_mem (accum bits : Nat) :
    ∀ b ∈ (emitGroups accum bits).1, b ∈ crockfordBase32Alphabet := by
  induction bits using Nat.strongRecOn with
  | ind bits ih =>
    match bits with
    | bits + 5 =>
      simp only [emitGroups, List.mem_cons, forall_eq_or_imp]
      exact ⟨alphabet_getD_mem (Nat.mod_lt _ (by omega)), ih bits (by omega)⟩
    | 0 | 1 | 2 | 3 | 4 => simp [emitGroups]

theorem foldl_encodeStep_mem (input : Bytes) (state : Bytes × Nat × Nat)
    (start : ∀ b ∈ state.1, b ∈ crockfordBase32Alphabet) :
    ∀ b ∈ (input.foldl encodeStep state).1, b ∈ crockfordBase32Alphabet := by
  induction input generalizing state with
  | nil => exact start
  | cons byte rest ih =>
    apply ih
    simp only [encodeStep, List.mem_append]
    rintro b (member | member)
    · exact start b member
    · exact emitGroups_mem _ _ b member

theorem toLowerAscii_mem : ∀ b ∈ crockfordBase32Alphabet, toLowerAscii b ∈ crockfordLowercase := by
  have lowered : crockfordBase32Alphabet.map toLowerAscii = crockfordLowercase := by decide
  exact fun b member => lowered ▸ List.mem_map_of_mem toLowerAscii member

theorem encodeCrockfordB32LC_mem (input : Bytes) :
    ∀ b ∈ encodeCrockfordB32LC input, b ∈ crockfordLowercase := by
  have groups := foldl_encodeStep_mem input ([], 0, 0) (by simp)
  simp only [encodeCrockfordB32LC, List.mem_map]
  rintro b ⟨c, member, rfl⟩
  apply toLowerAscii_mem
  split_ifs at member
  · rcases List.mem_append.mp member with member | member
    · exact groups c member
    · rw [List.mem_singleton.mp member]
      exact alphabet_getD_mem (Nat.mod_lt _ (by omega))
  · exact groups c member

/-- The `count` low bits of `value`, most significant first. -/
def natBits : Nat → Nat → List Bool
  | 0, _ => []
  | count + 1, value => decide (value / 2 ^ count % 2 = 1) :: natBits count value

def bitsValue : List Bool → Nat
  | [] => 0
  | bit :: bits => bit.toNat * 2 ^ bits.length + bitsValue bits

/-- The bits of a byte string, the most significant bit of its first byte first. -/
def byteStringBits (input : Bytes) : List Bool := input.flatMap fun b => natBits 8 b.val

/-- The groups of five bits from the front; bits after the last whole group are left out. -/
def fiveBitGroups : List Bool → List (List Bool)
  | b0 :: b1 :: b2 :: b3 :: b4 :: rest => [b0, b1, b2, b3, b4] :: fiveBitGroups rest
  | _ => []

/-- The bits of the input right-padded with zero bits to a multiple of five, and each group of
five mapped through `0123456789abcdefghjkmnpqrstvwxyz`. -/
def crockfordReference (input : Bytes) : Bytes :=
  let bits := byteStringBits input
  (fiveBitGroups (bits ++ List.replicate ((5 - bits.length % 5) % 5) false)).map fun group =>
    crockfordLowercase.getD (bitsValue group) 0

@[simp] theorem natBits_length (count value : Nat) : (natBits count value).length = count := by
  induction count <;> simp [natBits, *]

theorem bitsValue_natBits (count value : Nat) : bitsValue (natBits count value) = value % 2 ^ count := by
  induction count with
  | zero => simp [natBits, bitsValue, Nat.mod_one]
  | succ count ih =>
    have bit : (decide (value / 2 ^ count % 2 = 1)).toNat = value / 2 ^ count % 2 := by
      cases Nat.mod_two_eq_zero_or_one (value / 2 ^ count) <;> simp [*]
    rw [natBits, bitsValue, natBits_length, ih, Nat.mod_pow_succ, bit, Nat.add_comm, Nat.mul_comm]

theorem natBits_add (high low value : Nat) :
    natBits (high + low) value = natBits high (value / 2 ^ low) ++ natBits low value := by
  induction high with
  | zero => simp [natBits]
  | succ high ih =>
    rw [Nat.add_right_comm, natBits, ih, natBits, Nat.div_div_eq_div_mul, ← Nat.pow_add,
      Nat.add_comm low high, List.cons_append]

theorem natBits_mod {count bound : Nat} (within : count ≤ bound) (value : Nat) :
    natBits count (value % 2 ^ bound) = natBits count value := by
  induction count with
  | zero => rfl
  | succ count ih =>
    simp only [natBits, ih (by omega), ← Nat.testBit_to_div_mod, Nat.testBit_mod_two_pow,
      show count < bound by omega, decide_True, Bool.true_and]

/-- The bits of a value split into its whole groups of five from the top and the rest. -/
theorem natBits_split (count value : Nat) :
    natBits count value = natBits (5 * (count / 5)) (value / 2 ^ (count % 5)) ++ natBits (count % 5) value := by
  rw [← natBits_add, Nat.div_add_mod]

@[simp] theorem byteStringBits_nil : byteStringBits [] = [] := rfl

theorem byteStringBits_cons (b : Byte) (rest : Bytes) :
    byteStringBits (b :: rest) = natBits 8 b.val ++ byteStringBits rest := rfl

@[simp] theorem byteStringBits_length (input : Bytes) :
    (byteStringBits input).length = 8 * input.length := by
  induction input with
  | nil => rfl
  | cons b rest ih => simp only [byteStringBits_cons, List.length_append, natBits_length, ih,
      List.length_cons]; omega

theorem fiveBitGroups_short {bits : List Bool} (short : bits.length < 5) : fiveBitGroups bits = [] := by
  match bits with
  | [] | [_] | [_, _] | [_, _, _] | [_, _, _, _] => rfl
  | _ :: _ :: _ :: _ :: _ :: _ => simp only [List.length_cons] at short; omega

theorem fiveBitGroups_append {front : List Bool} (whole : front.length % 5 = 0) (back : List Bool) :
    fiveBitGroups (front ++ back) = fiveBitGroups front ++ fiveBitGroups back := by
  induction front using fiveBitGroups.induct with
  | case1 b0 b1 b2 b3 b4 rest ih =>
    have restWhole : rest.length % 5 = 0 := by simp only [List.length_cons] at whole; omega
    show fiveBitGroups (b0 :: b1 :: b2 :: b3 :: b4 :: (rest ++ back)) = _
    rw [fiveBitGroups, fiveBitGroups, ih restWhole, List.cons_append]
  | case2 front other =>
    obtain rfl : front = [] := by
      match front, other with
      | [], _ => rfl
      | [_], _ | [_, _], _ | [_, _, _], _ | [_, _, _, _], _ => simp at whole
      | _ :: _ :: _ :: _ :: _ :: _, other => exact absurd rfl (other _ _ _ _ _ _)
    rfl

theorem fiveBitGroups_natBits_five (value : Nat) (rest : List Bool) :
    fiveBitGroups (natBits 5 value ++ rest) = natBits 5 value :: fiveBitGroups rest := rfl

/-- The groups the inner loop writes for an accumulator holding `bits` pending bits are the whole
groups of five of those bits, most significant first; fewer than five bits are left. -/
theorem emitGroups_eq (accum bits : Nat) :
    emitGroups accum bits =
      ((fiveBitGroups (natBits bits accum)).map fun group =>
        crockfordBase32Alphabet.getD (bitsValue group) 0, bits % 5) := by
  induction bits using Nat.strongRecOn with
  | ind bits ih =>
    match bits with
    | bits + 5 =>
      rw [emitGroups, ih bits (by omega), Nat.add_comm, natBits_add, fiveBitGroups_natBits_five,
        List.map_cons, bitsValue_natBits]
      simp
    | 0 | 1 | 2 | 3 | 4 => simp [emitGroups, fiveBitGroups_short]

/-- The bits an accumulator holds after a byte is shifted in, as long as they fit in 64. -/
theorem natBits_shift {bits : Nat} (small : bits < 5) (accum : Nat) (b : Byte) :
    natBits (bits + 8) ((accum * 256 + b.val) % 2 ^ 64) = natBits bits accum ++ natBits 8 b.val := by
  have byte := b.isLt
  rw [natBits_mod (by omega), natBits_add, ← natBits_mod (le_refl 8) (accum * 256 + b.val)]
  simp only [show (2 : Nat) ^ 8 = 256 from rfl]
  congr 2 <;> omega

/-- One pass of the outer loop on pending bits `natBits bits accum`: the whole groups of five of
the pending bits and the byte's bits are written, and the bits after them stay pending. -/
theorem encodeStep_groups (result : Bytes) {bits : Nat} (small : bits < 5) (accum : Nat) (b : Byte) :
    ∃ front, encodeStep (result, bits, accum) b =
        (result ++ (fiveBitGroups front).map (fun group =>
          crockfordBase32Alphabet.getD (bitsValue group) 0), (bits + 8) % 5,
          (encodeStep (result, bits, accum) b).2.2) ∧ front.length % 5 = 0 ∧
      front ++ natBits ((bits + 8) % 5) (encodeStep (result, bits, accum) b).2.2 =
        natBits bits accum ++ natBits 8 b.val := by
  have shifted : (encodeStep (result, bits, accum) b).2.2 = (accum * 256 + b.val) % 2 ^ 64 := rfl
  rw [shifted]
  refine ⟨natBits (5 * ((bits + 8) / 5)) ((accum * 256 + b.val) % 2 ^ 64 / 2 ^ ((bits + 8) % 5)),
    ?_, by simp, ?_⟩
  · have short := fiveBitGroups_short
      (show (natBits ((bits + 8) % 5) ((accum * 256 + b.val) % 2 ^ 64)).length < 5 by simp; omega)
    show (result ++ (emitGroups ((accum * 256 + b.val) % 2 ^ 64) (bits + 8)).1,
      (emitGroups ((accum * 256 + b.val) % 2 ^ 64) (bits + 8)).2, (accum * 256 + b.val) % 2 ^ 64) = _
    rw [emitGroups_eq, natBits_split (bits + 8), fiveBitGroups_append (by simp), short,
      List.append_nil]
  · rw [← natBits_split]
    exact natBits_shift small accum b

/-- The loop of `EncodeCrockfordB32LC` from pending bits `natBits bits accum`: it writes the whole
groups of five of the pending bits and the input's bits, and keeps the bits after them. -/
theorem foldl_encodeStep_groups (input : Bytes) (result : Bytes) {bits : Nat} (small : bits < 5)
    (accum : Nat) :
    ∃ accum', input.foldl encodeStep (result, bits, accum) =
        (result ++ (fiveBitGroups (natBits bits accum ++ byteStringBits input)).map (fun group =>
          crockfordBase32Alphabet.getD (bitsValue group) 0), (bits + 8 * input.length) % 5, accum') ∧
      ∃ front, front.length % 5 = 0 ∧
        front ++ natBits ((bits + 8 * input.length) % 5) accum' = natBits bits accum ++ byteStringBits input := by
  induction input generalizing result bits accum with
  | nil =>
    refine ⟨accum, ?_, [], rfl, by simp [Nat.mod_eq_of_lt small]⟩
    simp [fiveBitGroups_short, small, Nat.mod_eq_of_lt small]
  | cons b rest ih =>
    obtain ⟨front, stepped, whole, joined⟩ := encodeStep_groups result small accum b
    obtain ⟨accum', ran, front', whole', joined'⟩ :=
      ih (result ++ (fiveBitGroups front).map fun group =>
        crockfordBase32Alphabet.getD (bitsValue group) 0) (Nat.mod_lt (bits + 8) (by omega))
        (encodeStep (result, bits, accum) b).2.2
    have count : ((bits + 8) % 5 + 8 * rest.length) % 5 = (bits + 8 * (rest.length + 1)) % 5 := by
      omega
    have pending : natBits bits accum ++ byteStringBits (b :: rest) =
        front ++ (natBits ((bits + 8) % 5) (encodeStep (result, bits, accum) b).2.2 ++
          byteStringBits rest) := by
      rw [byteStringBits_cons, ← List.append_assoc, ← joined, List.append_assoc]
    refine ⟨accum', ?_, front ++ front', by simp only [List.length_append]; omega, ?_⟩
    · rw [List.foldl_cons, stepped, ran, pending, fiveBitGroups_append whole, List.map_append,
        List.append_assoc, count, List.length_cons]
    · rw [pending, List.append_assoc, ← joined', List.length_cons, count]

theorem toLowerAscii_getD (index : Nat) :
    toLowerAscii (crockfordBase32Alphabet.getD index 0) = crockfordLowercase.getD index 0 := by
  have lowered : crockfordBase32Alphabet.map toLowerAscii = crockfordLowercase := by decide
  rw [← List.getD_map _ _ toLowerAscii, lowered]
  rfl

theorem bitsValue_append_false (bits : List Bool) (count : Nat) :
    bitsValue (bits ++ List.replicate count false) = bitsValue bits * 2 ^ count := by
  induction bits with
  | nil =>
    induction count with
    | zero => rfl
    | succ count ih => simpa [bitsValue, List.replicate_succ] using ih
  | cons bit bits ih =>
    rw [List.cons_append, bitsValue, bitsValue, List.length_append, List.length_replicate, ih,
      Nat.pow_add, Nat.add_mul, Nat.mul_assoc]

theorem fiveBitGroups_five {group : List Bool} (five : group.length = 5) :
    fiveBitGroups group = [group] := by
  match group, five with
  | [_, _, _, _, _], _ => rfl

theorem encodeCrockfordB32LC_eq_reference (input : Bytes) :
    encodeCrockfordB32LC input = crockfordReference input := by
  obtain ⟨accum, ran, front, whole, joined⟩ := foldl_encodeStep_groups input [] (by omega : 0 < 5) 0
  simp only [natBits, List.nil_append, Nat.zero_add] at ran joined
  have pendingShort : (natBits (8 * input.length % 5) accum).length < 5 := by
    rw [natBits_length]; omega
  simp only [encodeCrockfordB32LC, ran, crockfordReference, byteStringBits_length, List.nil_append]
  rw [← joined, fiveBitGroups_append whole, fiveBitGroups_short pendingShort, List.append_nil,
    List.append_assoc, fiveBitGroups_append whole]
  split_ifs with pending
  · have padded : (natBits (8 * input.length % 5) accum ++
        List.replicate ((5 - 8 * input.length % 5) % 5) false).length = 5 := by
      rw [List.length_append, natBits_length, List.length_replicate]; omega
    rw [fiveBitGroups_five padded, List.map_append, List.map_append, List.map_map]
    congr 1
    · exact List.map_congr_left fun group _ => toLowerAscii_getD _
    · rw [List.map_singleton, List.map_singleton, toLowerAscii_getD, bitsValue_append_false,
        bitsValue_natBits, Nat.mod_eq_of_lt (show 5 - 8 * input.length % 5 < 5 by omega),
        ← Nat.mul_mod_mul_right, ← Nat.pow_add,
        show 8 * input.length % 5 + (5 - 8 * input.length % 5) = 5 by omega]
  · obtain none : 8 * input.length % 5 = 0 := by omega
    simp only [none, natBits, Nat.sub_zero, Nat.mod_self, List.replicate_zero, List.append_nil,
      fiveBitGroups, List.map_map]
    exact List.map_congr_left fun group _ => toLowerAscii_getD _

theorem fiveBitGroups_length (bits : List Bool) : (fiveBitGroups bits).length = bits.length / 5 := by
  induction bits using fiveBitGroups.induct with
  | case1 b0 b1 b2 b3 b4 rest ih => simp only [fiveBitGroups, List.length_cons, ih]; omega
  | case2 bits other =>
    match bits, other with
    | [], _ | [_], _ | [_, _], _ | [_, _, _], _ | [_, _, _, _], _ => simp [fiveBitGroups]
    | _ :: _ :: _ :: _ :: _ :: _, other => exact absurd rfl (other _ _ _ _ _ _)

theorem length_of_mem_fiveBitGroups {bits group : List Bool} (member : group ∈ fiveBitGroups bits) :
    group.length = 5 := by
  induction bits using fiveBitGroups.induct with
  | case1 b0 b1 b2 b3 b4 rest ih =>
    rcases List.mem_cons.mp member with rfl | member
    · rfl
    · exact ih member
  | case2 bits other =>
    match bits, other with
    | [], _ | [_], _ | [_, _], _ | [_, _, _], _ | [_, _, _, _], _ => simp [fiveBitGroups] at member
    | _ :: _ :: _ :: _ :: _ :: _, other => exact absurd rfl (other _ _ _ _ _ _)

theorem flatten_fiveBitGroups {bits : List Bool} (whole : bits.length % 5 = 0) :
    (fiveBitGroups bits).flatten = bits := by
  induction bits using fiveBitGroups.induct with
  | case1 b0 b1 b2 b3 b4 rest ih =>
    simp only [List.length_cons] at whole
    rw [fiveBitGroups, List.flatten_cons, ih (by omega)]
    rfl
  | case2 bits other =>
    match bits, other with
    | [], _ => rfl
    | [_], _ | [_, _], _ | [_, _, _], _ | [_, _, _, _], _ => simp at whole
    | _ :: _ :: _ :: _ :: _ :: _, other => exact absurd rfl (other _ _ _ _ _ _)

theorem bitsValue_lt (bits : List Bool) : bitsValue bits < 2 ^ bits.length := by
  induction bits with
  | nil => simp [bitsValue]
  | cons bit bits ih => cases bit <;> simp [bitsValue, Nat.pow_succ] <;> omega

theorem natBits_bitsValue (bits : List Bool) : natBits bits.length (bitsValue bits) = bits := by
  induction bits with
  | nil => rfl
  | cons bit bits ih =>
    have low := bitsValue_lt bits
    have top : (bit.toNat * 2 ^ bits.length + bitsValue bits) / 2 ^ bits.length = bit.toNat := by
      rw [Nat.add_comm, Nat.add_mul_div_right _ _ (Nat.two_pow_pos _), Nat.div_eq_of_lt low, Nat.zero_add]
    rw [List.length_cons, natBits, bitsValue, top, ← natBits_mod le_rfl, Nat.add_comm,
      Nat.add_mul_mod_self_right, Nat.mod_eq_of_lt low, ih]
    cases bit <;> rfl

theorem group_eq_of_letter_eq {group group' : List Bool} (five : group.length = 5)
    (five' : group'.length = 5)
    (same : crockfordLowercase.getD (bitsValue group) 0 = crockfordLowercase.getD (bitsValue group') 0) :
    group = group' := by
  have size : crockfordLowercase.length = 32 := rfl
  have small := bitsValue_lt group
  have small' := bitsValue_lt group'
  rw [five] at small
  rw [five'] at small'
  rw [List.getD_eq_getElem _ _ (by omega), List.getD_eq_getElem _ _ (by omega)] at same
  have distinct : crockfordLowercase.Nodup := by decide
  have values := (distinct.getElem_inj_iff).mp same
  rw [← natBits_bitsValue group, ← natBits_bitsValue group', values, five, five']

theorem groups_eq_of_letters_eq {groups groups' : List (List Bool)}
    (five : ∀ group ∈ groups, group.length = 5) (five' : ∀ group ∈ groups', group.length = 5)
    (same : groups.map (fun group => crockfordLowercase.getD (bitsValue group) 0) =
      groups'.map fun group => crockfordLowercase.getD (bitsValue group) 0) :
    groups = groups' := by
  induction groups generalizing groups' with
  | nil => exact (List.map_eq_nil_iff.mp same.symm).symm
  | cons group groups ih =>
    match groups', same with
    | group' :: groups', same =>
      simp only [List.map_cons, List.cons.injEq] at same
      rw [group_eq_of_letter_eq (five group (List.mem_cons_self _ _))
          (five' group' (List.mem_cons_self _ _)) same.1,
        ih (fun g member => five g (List.mem_cons_of_mem _ member))
          (fun g member => five' g (List.mem_cons_of_mem _ member)) same.2]

theorem byteStringBits_injective {input input' : Bytes} (sameLength : input.length = input'.length)
    (same : byteStringBits input = byteStringBits input') : input = input' := by
  induction input generalizing input' with
  | nil => exact (List.eq_nil_of_length_eq_zero sameLength.symm).symm
  | cons b rest ih =>
    match input', sameLength, same with
    | b' :: rest', sameLength, same =>
      rw [byteStringBits_cons, byteStringBits_cons] at same
      obtain ⟨bits, more⟩ := List.append_inj same (by simp)
      have values := congrArg bitsValue bits
      rw [bitsValue_natBits, bitsValue_natBits, Nat.mod_eq_of_lt (show b.val < 2 ^ 8 from b.isLt),
        Nat.mod_eq_of_lt (show b'.val < 2 ^ 8 from b'.isLt)] at values
      rw [Fin.ext values, ih (by simpa using sameLength) more]

/-- `EncodeCrockfordB32LC` is the reference encoding, its length is `⌈8·|b|/5⌉`, and distinct byte
strings have distinct encodings. -/
theorem encodeCrockfordB32LC_reference :
    (∀ input, encodeCrockfordB32LC input = crockfordReference input ∧
      (encodeCrockfordB32LC input).length = (8 * input.length + 4) / 5) ∧
    Function.Injective encodeCrockfordB32LC := by
  have length input : (crockfordReference input).length = (8 * input.length + 4) / 5 := by
    simp only [crockfordReference, List.length_map, fiveBitGroups_length, List.length_append,
      byteStringBits_length, List.length_replicate]
    omega
  refine ⟨fun input => ⟨encodeCrockfordB32LC_eq_reference input,
    (encodeCrockfordB32LC_eq_reference input).symm ▸ length input⟩, fun input input' same => ?_⟩
  rw [encodeCrockfordB32LC_eq_reference, encodeCrockfordB32LC_eq_reference] at same
  have sameLength : input.length = input'.length := by
    have := congrArg List.length same
    rw [length, length] at this
    omega
  simp only [crockfordReference, byteStringBits_length, sameLength] at same
  have padded := groups_eq_of_letters_eq (fun _ => length_of_mem_fiveBitGroups)
    (fun _ => length_of_mem_fiveBitGroups) same
  have whole (input : Bytes) (sameLength : input.length = input'.length) :
      (byteStringBits input ++ List.replicate ((5 - 8 * input'.length % 5) % 5) false).length % 5 = 0 := by
    simp only [List.length_append, byteStringBits_length, List.length_replicate]; omega
  have bits := congrArg List.flatten padded
  rw [flatten_fiveBitGroups (whole input sameLength), flatten_fiveBitGroups (whole input' rfl)] at bits
  exact byteStringBits_injective sameLength (List.append_inj_left' bits rfl)

theorem encodeCrockfordB32LC_length (input : Bytes) :
    (encodeCrockfordB32LC input).length = (8 * input.length + 4) / 5 := by
  rw [encodeCrockfordB32LC_eq_reference]
  simp only [crockfordReference, List.length_map, fiveBitGroups_length, List.length_append,
    byteStringBits_length, List.length_replicate]
  omega

theorem bitsValue_append (front back : List Bool) :
    bitsValue (front ++ back) = bitsValue front * 2 ^ back.length + bitsValue back := by
  induction front with
  | nil => simp [bitsValue]
  | cons bit bits ih =>
    rw [List.cons_append, bitsValue, bitsValue, ih, List.length_append, Nat.pow_add, Nat.add_mul,
      Nat.mul_assoc, Nat.add_assoc]

theorem lex_iff_bitsValue : ∀ {bits bits' : List Bool}, bits.length = bits'.length →
    (List.Lex (· < ·) bits bits' ↔ bitsValue bits < bitsValue bits')
  | [], [], _ => by simp [bitsValue]
  | bit :: bits, bit' :: bits', same => by
    have sameLength : bits.length = bits'.length := by simpa using same
    have ih := @lex_iff_bitsValue bits bits' sameLength
    have low := bitsValue_lt bits
    have low' := bitsValue_lt bits'
    rw [sameLength] at low
    simp only [bitsValue, sameLength]
    cases bit <;> cases bit'
    case false.false => rw [List.Lex.cons_iff, ih]; simp
    case false.true => exact iff_of_true (.rel (by decide)) (by simp; omega)
    case true.false =>
      refine iff_of_false (fun lex => ?_) (by simp; omega)
      cases lex with
      | rel below => exact absurd below (by decide)
    case true.true => rw [List.Lex.cons_iff, ih]; simp

theorem lex_append_of_length {α : Type} {r : α → α → Prop} {front front' back back' : List α}
    (lex : List.Lex r front front') (same : front.length = front'.length) :
    List.Lex r (front ++ back) (front' ++ back') := by
  induction lex with
  | nil => cases same
  | cons _ ih => exact .cons (ih (by simpa using same))
  | rel below => exact .rel below

theorem lex_append_cases {α : Type} {r : α → α → Prop} {front front' back back' : List α}
    (same : front.length = front'.length) (lex : List.Lex r (front ++ back) (front' ++ back')) :
    List.Lex r front front' ∨ front = front' ∧ List.Lex r back back' := by
  induction front generalizing front' with
  | nil => cases front' with
    | nil => exact .inr ⟨rfl, lex⟩
    | cons => cases same
  | cons a rest ih => cases front' with
    | nil => cases same
    | cons a' rest' =>
      cases lex with
      | cons tail =>
        rcases ih (by simpa using same) tail with front | ⟨rfl, back⟩
        · exact .inl (.cons front)
        · exact .inr ⟨rfl, back⟩
      | rel below => exact .inl (.rel below)

theorem crockfordLowercase_letter_lt {value value' : Nat} (below : value < value') (small : value' < 32) :
    crockfordLowercase.getD value 0 < crockfordLowercase.getD value' 0 := by
  have size : crockfordLowercase.length = 32 := rfl
  have increasing : crockfordLowercase.Pairwise (· < ·) := by decide
  rw [List.getD_eq_getElem _ _ (by omega), List.getD_eq_getElem _ _ (by omega)]
  exact List.pairwise_iff_getElem.mp increasing _ _ _ _ below

theorem lex_fiveBitGroups {bits bits' : List Bool} (same : bits.length = bits'.length)
    (whole : bits.length % 5 = 0) (lex : List.Lex (· < ·) bits bits') :
    List.Lex (· < ·) ((fiveBitGroups bits).map fun group => crockfordLowercase.getD (bitsValue group) 0)
      ((fiveBitGroups bits').map fun group => crockfordLowercase.getD (bitsValue group) 0) := by
  obtain ⟨n, length⟩ : ∃ n, bits.length = 5 * n := ⟨bits.length / 5, by omega⟩
  induction n generalizing bits bits' with
  | zero =>
    rw [List.eq_nil_of_length_eq_zero length, List.eq_nil_of_length_eq_zero (by omega : bits'.length = 0)] at lex
    cases lex
  | succ n ih =>
    have five : (bits.take 5).length = 5 := by rw [List.length_take]; omega
    have five' : (bits'.take 5).length = 5 := by rw [List.length_take]; omega
    have tail : (bits.drop 5).length = 5 * n := by rw [List.length_drop]; omega
    have tail' : (bits'.drop 5).length = 5 * n := by rw [List.length_drop]; omega
    rw [← List.take_append_drop 5 bits, ← List.take_append_drop 5 bits'] at lex ⊢
    rw [fiveBitGroups_append (by rw [five]), fiveBitGroups_append (by rw [five']), fiveBitGroups_five five,
      fiveBitGroups_five five', List.singleton_append, List.singleton_append, List.map_cons, List.map_cons]
    rcases lex_append_cases (five.trans five'.symm) lex with first | ⟨first, rest⟩
    · have below := (lex_iff_bitsValue (five.trans five'.symm)).mp first
      have small := bitsValue_lt (bits'.take 5)
      rw [five'] at small
      exact .rel (crockfordLowercase_letter_lt below small)
    · rw [first]
      exact .cons (ih (tail.trans tail'.symm) (by omega) rest tail)

theorem encodeCrockfordB32LC_lex {input input' : Bytes} (same : input.length = input'.length)
    (lex : List.Lex (· < ·) (byteStringBits input) (byteStringBits input')) :
    List.Lex (· < ·) (encodeCrockfordB32LC input) (encodeCrockfordB32LC input') := by
  rw [encodeCrockfordB32LC_eq_reference, encodeCrockfordB32LC_eq_reference]
  simp only [crockfordReference, byteStringBits_length, same]
  exact lex_fiveBitGroups (by simp [same]) (by simp; omega)
    (lex_append_of_length lex (by simp [same]))

theorem bitsValue_injective {bits bits' : List Bool} (same : bits.length = bits'.length)
    (values : bitsValue bits = bitsValue bits') : bits = bits' := by
  rw [← natBits_bitsValue bits, ← natBits_bitsValue bits', values, same]

theorem lex_irrefl : ∀ l : Bytes, ¬ List.Lex (· < ·) l l
  | [], lex => List.Lex.not_nil_right _ _ lex
  | c :: rest, lex => by
    cases lex with
    | cons tail => exact lex_irrefl rest tail
    | rel below => exact Nat.lt_irrefl c.val below

/-- Byte strings of one length with one encoding are equal: by the order, either of them below
the other would put its encoding below the other's. -/
theorem encodeCrockfordB32LC_inj {input input' : Bytes} (same : input.length = input'.length)
    (encoded : encodeCrockfordB32LC input = encodeCrockfordB32LC input') : input = input' := by
  have sameBits : (byteStringBits input).length = (byteStringBits input').length := by simp [same]
  refine byteStringBits_injective same (bitsValue_injective sameBits ?_)
  rcases lt_trichotomy (bitsValue (byteStringBits input)) (bitsValue (byteStringBits input')) with
    below | equal | above
  · have lex := encodeCrockfordB32LC_lex same ((lex_iff_bitsValue sameBits).mpr below)
    rw [encoded] at lex
    exact absurd lex (lex_irrefl _)
  · exact equal
  · have lex := encodeCrockfordB32LC_lex same.symm ((lex_iff_bitsValue sameBits.symm).mpr above)
    rw [encoded] at lex
    exact absurd lex (lex_irrefl _)

/-- One rune of the loop of `NormalizeCrockfordB32LC`: `O` is written as `0`, `I` and `L` as `1`,
and every other rune as `WriteRune` writes it. -/
def normalizeRune : Rune → Bytes
  | .ascii b => if b = 0x4F then [0x30] else if b = 0x49 ∨ b = 0x4C then [0x31] else [b]
  | r => r.sanitized

/-- `NormalizeCrockfordB32LC`: spaces removed, uppercased, `O`, `I` and `L` replaced, lowercased. -/
def normalizeCrockfordB32LC (input : Bytes) : Bytes :=
  stringsToLower ((runes (stringsToUpper (input.filter (· ≠ 0x20)))).flatMap normalizeRune)

theorem crockfordLowercase_normal : ∀ c ∈ crockfordLowercase,
    c.val < 0x80 ∧ c ≠ 0x20 ∧ toUpperAscii c ≠ 0x4F ∧ ¬ (toUpperAscii c = 0x49 ∨ toUpperAscii c = 0x4C) ∧
      toLowerAscii (toUpperAscii c) = c := by
  have checked : crockfordLowercase.all (fun c => c.val < 0x80 && c != 0x20 &&
      toUpperAscii c != 0x4F && !(toUpperAscii c == 0x49 || toUpperAscii c == 0x4C) &&
      toLowerAscii (toUpperAscii c) == c) = true := rfl
  simpa [and_assoc] using List.all_eq_true.mp checked

theorem normalizeCrockfordB32LC_of_normal {s : Bytes} (alphabet : ∀ c ∈ s, c ∈ crockfordLowercase) :
    normalizeCrockfordB32LC s = s := by
  have normal c (member : c ∈ s) := crockfordLowercase_normal c (alphabet c member)
  have upperLow : ∀ c ∈ s.map toUpperAscii, c.val < 0x80 := by
    simp only [List.mem_map]
    rintro _ ⟨c, member, rfl⟩
    have low := (normal c member).1
    unfold toUpperAscii
    split_ifs
    · simp only [Fin.sub_def]
      simp
      omega
    · exact low
  have replaced : (runes (s.map toUpperAscii)).flatMap normalizeRune = s.map toUpperAscii := by
    rw [runes_of_ascii upperLow]
    induction s with
    | nil => rfl
    | cons c rest ih =>
      obtain ⟨-, -, notO, notIL, -⟩ := normal c (List.mem_cons_self _ _)
      simp only [List.map_cons, List.flatMap_cons, normalizeRune, notO, notIL, if_false,
        List.singleton_append]
      exact congrArg _ (ih (fun c member => alphabet c (List.mem_cons_of_mem _ member))
        (fun c member => normal c (List.mem_cons_of_mem _ member))
        (fun c member => upperLow c (List.mem_cons_of_mem _ member)))
  rw [normalizeCrockfordB32LC, List.filter_eq_self.mpr (fun c member => by simp [(normal c member).2.1]),
    stringsToUpper_of_ascii (fun c member => (normal c member).1), replaced,
    stringsToLower_of_ascii upperLow, List.map_map]
  exact (List.map_congr_left fun c member => (normal c member).2.2.2.2).trans (List.map_id _)

/-- Normalizing an encoding gives it back: every id the system issues survives the
normalization of incoming ids. -/
theorem normalize_encodeCrockfordB32LC (input : Bytes) :
    normalizeCrockfordB32LC (encodeCrockfordB32LC input) = encodeCrockfordB32LC input :=
  normalizeCrockfordB32LC_of_normal (encodeCrockfordB32LC_mem input)

/-- `U+0130`, a capital I with a dot above, is its own uppercase and lowercases to `i`, which the
next normalization uppercases to `I` and so replaces by `1`. -/
theorem normalize_twice_dotted_capital_i :
    normalizeCrockfordB32LC [0xC4, 0xB0] = ascii "i" ∧
      normalizeCrockfordB32LC (normalizeCrockfordB32LC [0xC4, 0xB0]) = ascii "1" := by
  decide

end Homecase
