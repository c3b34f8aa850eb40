namespace HeaderCodec
namespace Bits

/-!
# Numbers and bytes as bits

A compressed stream is a sequence of bits.  Within a byte the least
significant bit comes first, and a number of any width is written with its
least significant bit first too.  Everything above this module speaks of
`List Bool` in that order, so a byte boundary matters only where the format
itself mentions one.

The two directions are `ofNat` and `toNat` for numbers, `ofBytes` and
`toBytes` for byte strings.  What is established here is that each pair reads
back, with the lengths that callers rely on.
-/

/-- The `width` low bits of `value`, least significant first. -/
def ofNat : Nat -> Nat -> List Bool
  | 0, _ => []
  | width + 1, value => (value % 2 == 1) :: ofNat width (value / 2)

/-- The number whose bits are given, least significant first. -/
def toNat : List Bool -> Nat
  | [] => 0
  | bit :: rest => bit.toNat + 2 * toNat rest

@[simp] theorem length_ofNat (width value : Nat) : (ofNat width value).length = width := by
  induction width generalizing value with
  | zero => rfl
  | succ width inductionHypothesis => simp [ofNat, inductionHypothesis]

theorem toNat_ofNat (width value : Nat) : toNat (ofNat width value) = value % (1 <<< width) := by
  rw [Nat.one_shiftLeft]
  induction width generalizing value with
  | zero => simp [ofNat, toNat, Nat.mod_one]
  | succ width inductionHypothesis =>
    have head : (value % 2 == 1).toNat = value % 2 := by
      rcases Nat.mod_two_eq_zero_or_one value with even | odd
      · simp [even]
      · simp [odd]
    rw [ofNat, toNat, inductionHypothesis, head, Nat.pow_succ, Nat.mul_comm (2 ^ width) 2,
      Nat.mod_mul]

theorem toNat_lt (bits : List Bool) : toNat bits < 1 <<< bits.length := by
  rw [Nat.one_shiftLeft]
  induction bits with
  | nil => simp [toNat]
  | cons bit rest inductionHypothesis =>
    have bound : bit.toNat ≤ 1 := Bool.toNat_le bit
    rw [toNat, List.length_cons, Nat.pow_succ]
    omega

theorem ofNat_toNat (bits : List Bool) : ofNat bits.length (toNat bits) = bits := by
  induction bits with
  | nil => rfl
  | cons bit rest inductionHypothesis =>
    have half : (bit.toNat + 2 * toNat rest) / 2 = toNat rest := by
      have bound : bit.toNat ≤ 1 := Bool.toNat_le bit
      omega
    have parity : ((bit.toNat + 2 * toNat rest) % 2 == 1) = bit := by
      cases bit with
      | false => simp
      | true => simp
    rw [toNat, List.length_cons, ofNat, half, parity, inductionHypothesis]

/-! ## Byte strings -/

/-- The bits of a byte string, each byte's least significant bit first. -/
def ofBytes (bytes : List UInt8) : List Bool :=
  bytes.flatMap fun byte => ofNat 8 byte.toNat

/-- Gather bits into bytes.  Missing bits of a last, partial byte are zero. -/
def toBytes (bits : List Bool) : List UInt8 :=
  if bits = [] then []
  else UInt8.ofNat (toNat (bits.take 8)) :: toBytes (bits.drop 8)
termination_by bits.length
decreasing_by
  rename_i nonempty
  have positive := List.length_pos_iff.2 nonempty
  simp only [List.length_drop]
  omega

@[simp] theorem ofBytes_nil : ofBytes [] = [] := rfl

@[simp] theorem ofBytes_cons (byte : UInt8) (rest : List UInt8) :
    ofBytes (byte :: rest) = ofNat 8 byte.toNat ++ ofBytes rest := by
  simp [ofBytes]

@[simp] theorem ofBytes_append (first second : List UInt8) :
    ofBytes (first ++ second) = ofBytes first ++ ofBytes second := by
  simp [ofBytes]

@[simp] theorem length_ofBytes (bytes : List UInt8) :
    (ofBytes bytes).length = 8 * bytes.length := by
  induction bytes with
  | nil => rfl
  | cons byte rest inductionHypothesis =>
    rw [ofBytes_cons, List.length_append, length_ofNat, inductionHypothesis, List.length_cons]
    omega

@[simp] theorem toBytes_nil : toBytes [] = [] := by
  rw [toBytes]; simp

theorem toBytes_ofBytes (bytes : List UInt8) : toBytes (ofBytes bytes) = bytes := by
  induction bytes with
  | nil => simp
  | cons byte rest inductionHypothesis =>
    have nonempty : ofBytes (byte :: rest) ≠ [] := by
      intro empty
      have lengths := congrArg List.length empty
      rw [length_ofBytes, List.length_cons, List.length_nil] at lengths
      omega
    have first : (ofBytes (byte :: rest)).take 8 = ofNat 8 byte.toNat := by
      rw [ofBytes_cons, List.take_left' (length_ofNat 8 byte.toNat)]
    have others : (ofBytes (byte :: rest)).drop 8 = ofBytes rest := by
      rw [ofBytes_cons, List.drop_left' (length_ofNat 8 byte.toNat)]
    have small : byte.toNat % (1 <<< 8) = byte.toNat := Nat.mod_eq_of_lt byte.toNat_lt
    rw [toBytes, if_neg nonempty, first, others, inductionHypothesis, toNat_ofNat, small,
      UInt8.ofNat_toNat]

theorem ofBytes_toBytes (bits : List Bool) (whole : bits.length % 8 = 0) :
    ofBytes (toBytes bits) = bits := by
  by_cases empty : bits = []
  · simp [empty]
  · have positive := List.length_pos_iff.2 empty
    have eight : (bits.take 8).length = 8 := by
      rw [List.length_take]; omega
    have bound : toNat (bits.take 8) < 1 <<< 8 := by
      have general := toNat_lt (bits.take 8)
      rwa [eight] at general
    have rest : (bits.drop 8).length % 8 = 0 := by
      rw [List.length_drop]; omega
    rw [toBytes, if_neg empty, ofBytes_cons, ofBytes_toBytes (bits.drop 8) rest,
      UInt8.toNat_ofNat_of_lt' bound]
    have back := ofNat_toNat (bits.take 8)
    rw [eight] at back
    rw [back, List.take_append_drop]
termination_by bits.length
decreasing_by
  rw [List.length_drop]
  omega

/-- The end of a byte string's bits is a part of one byte, which may be empty, and
then whole bytes. -/
theorem exists_drop_of_suffix {bits : List Bool} {bytes : List UInt8}
    (suffix : bits <:+ ofBytes bytes) :
    ∃ position partly, position ≤ bytes.length ∧ partly.length < 8 ∧
      bits = partly ++ ofBytes (bytes.drop position) := by
  induction bytes with
  | nil => exact ⟨0, [], Nat.le_refl 0, Nat.succ_pos 7, List.suffix_nil.1 suffix⟩
  | cons byte rest inductionHypothesis =>
    rcases suffix with ⟨before, whole⟩
    rw [ofBytes_cons] at whole
    rcases List.append_eq_append_iff.1 whole with ⟨partly, here, parts⟩ | ⟨_, _, parts⟩
    · have eight := congrArg List.length here
      rw [length_ofNat, List.length_append] at eight
      by_cases all : partly.length = 8
      · refine ⟨0, [], Nat.zero_le _, Nat.succ_pos 7, ?_⟩
        have none : before = [] := List.length_eq_zero_iff.1 (by omega)
        rw [none, List.nil_append] at whole
        rw [whole, List.drop_zero, ofBytes_cons, List.nil_append]
      · exact ⟨1, partly, Nat.succ_pos _, by omega, parts⟩
    · rcases inductionHypothesis ⟨_, parts.symm⟩ with ⟨position, partly, inside, short, rfl⟩
      exact ⟨position + 1, partly, Nat.succ_le_succ inside, short, rfl⟩

/-- The number of bits that fill up the byte in which position `position` lies. -/
def padding (position : Nat) : Nat :=
  (8 - position % 8) % 8

theorem padding_spec (position : Nat) : (position + padding position) % 8 = 0 := by
  unfold padding
  omega

end Bits
end HeaderCodec
