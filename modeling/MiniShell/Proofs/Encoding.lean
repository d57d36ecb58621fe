/-
This file proves that a text survives being written to a file and read back.
Decoding undoes encoding, character by character: the first byte of a character
announces how many bytes follow, and each of them adds six bits. Encoding
undoes decoding as well, because a decoder refuses every sequence of bytes that
is not the encoding of a character. Reading also unifies the line ends, which
changes nothing in a text without carriage returns, and always changes a text
that has one.

The bits are dealt with as numbers: a character is a number with digits to the
base sixty-four, and the first byte says how many digits there are.
-/

import MiniShell.Text.Utf8

namespace MiniShell.Text

/-! ### One byte -/

theorem byte_toNat {number : Nat} (small : number < 0x100) :
    (UInt8.ofNat number).toNat = number :=
  UInt8.toNat_ofNat_of_lt' small

theorem decodeFrom_none (position : Nat) (byte : UInt8) (rest : List UInt8) :
    decodeFrom position none (byte :: rest) =
      if byte.toNat < 0x80 then (do
        let others ← decodeFrom (position + 1) none rest
        pure (Char.ofNat byte.toNat :: others))
      else
        match Sequence.open? position byte with
        | none => .error ⟨position, byte, 1, .badStart⟩
        | some sequence => decodeFrom (position + 1) (some sequence) rest := rfl

theorem decodeFrom_some (position : Nat) (sequence : Sequence) (byte : UInt8)
    (rest : List UInt8) :
    decodeFrom position (some sequence) (byte :: rest) =
      if sequence.low ≤ byte.toNat ∧ byte.toNat ≤ sequence.high then
        if (sequence.extend byte.toNat).missing = 0 then (do
          let others ← decodeFrom (position + 1) none rest
          pure (Char.ofNat (sequence.extend byte.toNat).value :: others))
        else decodeFrom (position + 1) (some (sequence.extend byte.toNat)) rest
      else .error ⟨sequence.start, sequence.byte, sequence.length, .badContinuation⟩ := rfl

/-- A byte above the single ones begins the sequence that it opens. -/
theorem decodeFrom_open {position number : Nat} {sequence : Sequence} (large : 0x80 ≤ number)
    (small : number < 0x100)
    (opens : Sequence.open? position (.ofNat number) = some sequence) (rest : List UInt8) :
    decodeFrom position none (.ofNat number :: rest) =
      decodeFrom (position + 1) (some sequence) rest := by
  have notSingle : ¬ (UInt8.ofNat number).toNat < 0x80 := by
    rw [byte_toNat small]
    omega
  rw [decodeFrom_none, if_neg notSingle, opens]

/-- A byte that continues a sequence but does not end it adds its six bits. -/
theorem decodeFrom_next {position bits : Nat} {sequence : Sequence} (small : bits < 0x40)
    (low : sequence.low ≤ 0x80 + bits) (high : 0x80 + bits ≤ sequence.high)
    (more : 1 < sequence.missing) (rest : List UInt8) :
    decodeFrom position (some sequence) (.ofNat (0x80 + bits) :: rest) =
      decodeFrom (position + 1) (some (sequence.extend (0x80 + bits))) rest := by
  have number : (UInt8.ofNat (0x80 + bits)).toNat = 0x80 + bits := byte_toNat (by omega)
  have goesOn : ¬ (sequence.extend (0x80 + bits)).missing = 0 := by
    show ¬ sequence.missing - 1 = 0
    omega
  rw [decodeFrom_some, number, if_pos ⟨low, high⟩, if_neg goesOn]

/-- The byte that ends a sequence completes its character. -/
theorem decodeFrom_last {position bits : Nat} {sequence : Sequence} (small : bits < 0x40)
    (low : sequence.low ≤ 0x80 + bits) (high : 0x80 + bits ≤ sequence.high)
    (one : sequence.missing = 1) (rest : List UInt8) :
    decodeFrom position (some sequence) (.ofNat (0x80 + bits) :: rest) =
      (do
        let others ← decodeFrom (position + 1) none rest
        pure (Char.ofNat (sequence.value * 0x40 + bits) :: others)) := by
  have number : (UInt8.ofNat (0x80 + bits)).toNat = 0x80 + bits := byte_toNat (by omega)
  have ends : (sequence.extend (0x80 + bits)).missing = 0 := by
    show sequence.missing - 1 = 0
    omega
  have value : (sequence.extend (0x80 + bits)).value = sequence.value * 0x40 + bits := by
    show sequence.value * 0x40 + (0x80 + bits - 0x80) = sequence.value * 0x40 + bits
    rw [Nat.add_sub_cancel_left]
  rw [decodeFrom_some, number, if_pos ⟨low, high⟩, if_pos ends, value]

/-! ### First bytes -/

theorem open?_two {lead : Nat} (position : Nat) (low : 2 ≤ lead) (high : lead < 0x20) :
    Sequence.open? position (.ofNat (0xC0 + lead)) =
      some ⟨position, .ofNat (0xC0 + lead), 1, 1, lead, 0x80, 0xBF⟩ := by
  have number : (UInt8.ofNat (0xC0 + lead)).toNat = 0xC0 + lead := byte_toNat (by omega)
  simp only [Sequence.open?, number]
  rw [if_pos (by omega), Nat.add_sub_cancel_left]

theorem open?_three {lead : Nat} (position : Nat) (high : lead < 0x10) :
    Sequence.open? position (.ofNat (0xE0 + lead)) =
      some ⟨position, .ofNat (0xE0 + lead), 1, 2, lead,
        if lead = 0 then 0xA0 else 0x80, if lead = 0xD then 0x9F else 0xBF⟩ := by
  have number : (UInt8.ofNat (0xE0 + lead)).toNat = 0xE0 + lead := byte_toNat (by omega)
  have first : (0xE0 + lead = 0xE0) = (lead = 0) := by
    apply propext
    omega
  have surrogates : (0xE0 + lead = 0xED) = (lead = 0xD) := by
    apply propext
    omega
  simp only [Sequence.open?, number, first, surrogates]
  rw [if_neg (by omega), if_pos (by omega), Nat.add_sub_cancel_left]

theorem open?_four {lead : Nat} (position : Nat) (high : lead < 5) :
    Sequence.open? position (.ofNat (0xF0 + lead)) =
      some ⟨position, .ofNat (0xF0 + lead), 1, 3, lead,
        if lead = 0 then 0x90 else 0x80, if lead = 4 then 0x8F else 0xBF⟩ := by
  have number : (UInt8.ofNat (0xF0 + lead)).toNat = 0xF0 + lead := byte_toNat (by omega)
  have first : (0xF0 + lead = 0xF0) = (lead = 0) := by
    apply propext
    omega
  have last : (0xF0 + lead = 0xF4) = (lead = 4) := by
    apply propext
    omega
  simp only [Sequence.open?, number, first, last]
  rw [if_neg (by omega), if_neg (by omega), if_pos (by omega), Nat.add_sub_cancel_left]

/-! ### Whole characters -/

/-- Decoding the bytes of a character gives it, and goes on behind them. -/
theorem decodeFrom_encodeCharacter (position : Nat) (character : Char) (rest : List UInt8) :
    ∃ next, decodeFrom position none (encodeCharacter character ++ rest) =
      (do
        let others ← decodeFrom next none rest
        pure (character :: others)) := by
  have valid : character.toNat < 0xD800 ∨
      0xDFFF < character.toNat ∧ character.toNat < 0x110000 := character.valid
  have same : Char.ofNat character.toNat = character := Char.ofNat_toNat character
  unfold encodeCharacter
  generalize character.toNat = code at valid same
  by_cases one : code < 0x80
  · have number : (UInt8.ofNat code).toNat = code := byte_toNat (by omega)
    refine ⟨position + 1, ?_⟩
    simp only [if_pos one, List.cons_append, List.nil_append]
    rw [decodeFrom_none, number, if_pos one, same]
  by_cases two : code < 0x800
  · refine ⟨position + 1 + 1, ?_⟩
    have value : code / 0x40 * 0x40 + code % 0x40 = code := Nat.div_add_mod' code 0x40
    simp only [if_neg one, if_pos two, List.cons_append, List.nil_append]
    rw [decodeFrom_open (by omega) (by omega) (open?_two position (by omega) (by omega)),
      decodeFrom_last (by omega) (by show 0x80 ≤ _; omega) (by show _ ≤ 0xBF; omega) rfl]
    simp only [value, same]
  by_cases three : code < 0x10000
  · refine ⟨position + 1 + 1 + 1, ?_⟩
    have value : (code / 0x1000 * 0x40 + code / 0x40 % 0x40) * 0x40 + code % 0x40 = code := by
      omega
    simp only [if_neg one, if_neg two, if_pos three, List.cons_append, List.nil_append]
    -- The bounds on the second byte hold because the code needs three bytes and is no surrogate.
    rw [decodeFrom_open (by omega) (by omega) (open?_three position (by omega)),
      decodeFrom_next (by omega) (by show ite _ _ _ ≤ _; split <;> omega)
        (by show _ ≤ ite _ _ _; split <;> omega) (by show 1 < 2; decide),
      decodeFrom_last (by omega) (by show 0x80 ≤ _; omega) (by show _ ≤ 0xBF; omega) rfl]
    simp only [Sequence.extend, Nat.add_sub_cancel_left, value, same]
  · refine ⟨position + 1 + 1 + 1 + 1, ?_⟩
    have value : ((code / 0x40000 * 0x40 + code / 0x1000 % 0x40) * 0x40 + code / 0x40 % 0x40) *
        0x40 + code % 0x40 = code := by
      omega
    simp only [if_neg one, if_neg two, if_neg three, List.cons_append, List.nil_append]
    rw [decodeFrom_open (by omega) (by omega) (open?_four position (by omega)),
      decodeFrom_next (by omega) (by show ite _ _ _ ≤ _; split <;> omega)
        (by show _ ≤ ite _ _ _; split <;> omega) (by show 1 < 3; decide),
      decodeFrom_next (by omega) (by show 0x80 ≤ _; omega) (by show _ ≤ 0xBF; omega)
        (by show 1 < 2; decide),
      decodeFrom_last (by omega) (by show 0x80 ≤ _; omega) (by show _ ≤ 0xBF; omega) rfl]
    simp only [Sequence.extend, Nat.add_sub_cancel_left, value, same]

/-! ### Whole texts -/

theorem decodeFrom_encode (position : Nat) (text : Text) :
    decodeFrom position none (encode text) = .ok text := by
  induction text generalizing position with
  | nil => rfl
  | cons character rest inductionHypothesis =>
    obtain ⟨next, decoded⟩ := decodeFrom_encodeCharacter position character (encode rest)
    rw [show encode (character :: rest) = encodeCharacter character ++ encode rest from rfl,
      decoded, inductionHypothesis next]
    rfl

/-- Decoding undoes encoding. -/
theorem decode_encode (text : Text) : decode (encode text) = .ok text :=
  decodeFrom_encode 0 text

/-- A decoder that gives the empty text has nothing to decode. -/
theorem decodeFrom_nil {position : Nat} {sequence : Option Sequence} {bytes : List UInt8}
    (decoded : decodeFrom position sequence bytes = .ok []) : sequence = none ∧ bytes = [] := by
  have never (character : Char) (outcome : Except DecodeFault Text) :
      (do let others ← outcome; pure (character :: others)) ≠ Except.ok [] := by
    cases outcome <;> simp [bind, Except.bind, pure, Except.pure]
  fun_induction decodeFrom position sequence bytes with
  | case1 => exact ⟨rfl, rfl⟩
  | case2 => exact absurd decoded (by simp)
  | case3 => exact absurd decoded (never _ _)
  | case4 => exact absurd decoded (by simp)
  | case5 _ _ _ _ _ _ inductionHypothesis =>
    exact absurd (inductionHypothesis decoded).1 (by simp)
  | case6 => exact absurd decoded (never _ _)
  | case7 _ _ _ _ _ _ _ inductionHypothesis =>
    exact absurd (inductionHypothesis decoded).1 (by simp)
  | case8 => exact absurd decoded (by simp)

/-! ### Decoding back -/

theorem toNat_ofNat {code : Nat} (valid : code < 0xD800 ∨ 0xDFFF < code ∧ code < 0x110000) :
    (Char.ofNat code).toNat = code := by
  have isValid : code.isValidChar := valid
  rw [Char.ofNat, dif_pos isValid]
  rfl

theorem byte_ofNat {number : Nat} {byte : UInt8} (same : number = byte.toNat) :
    UInt8.ofNat number = byte := by
  rw [same, UInt8.ofNat_toNat]

theorem encodeCharacter_one {byte : UInt8} (single : byte.toNat < 0x80) :
    encodeCharacter (Char.ofNat byte.toNat) = [byte] := by
  have same : (Char.ofNat byte.toNat).toNat = byte.toNat := toNat_ofNat (by omega)
  simp only [encodeCharacter, same, if_pos single, UInt8.ofNat_toNat]

theorem encodeCharacter_two {first second : UInt8}
    (lead : 0xC2 ≤ first.toNat ∧ first.toNat ≤ 0xDF)
    (low : 0x80 ≤ second.toNat) (high : second.toNat ≤ 0xBF) :
    encodeCharacter (Char.ofNat ((first.toNat - 0xC0) * 0x40 + (second.toNat - 0x80))) =
      [first, second] := by
  generalize isCode : (first.toNat - 0xC0) * 0x40 + (second.toNat - 0x80) = code
  have same : (Char.ofNat code).toNat = code := toNat_ofNat (by omega)
  have isFirst : UInt8.ofNat (0xC0 + code / 0x40) = first := byte_ofNat (by omega)
  have isSecond : UInt8.ofNat (0x80 + code % 0x40) = second := byte_ofNat (by omega)
  simp only [encodeCharacter, same]
  rw [if_neg (by omega), if_pos (by omega), isFirst, isSecond]

/-- The bounds on the second byte rule out long forms and surrogates. -/
theorem encodeCharacter_three {first second third : UInt8}
    (lead : 0xE0 ≤ first.toNat ∧ first.toNat ≤ 0xEF)
    (low : (if first.toNat = 0xE0 then 0xA0 else 0x80) ≤ second.toNat)
    (high : second.toNat ≤ if first.toNat = 0xED then 0x9F else 0xBF)
    (lowThird : 0x80 ≤ third.toNat) (highThird : third.toNat ≤ 0xBF) :
    encodeCharacter (Char.ofNat (((first.toNat - 0xE0) * 0x40 + (second.toNat - 0x80)) * 0x40 +
      (third.toNat - 0x80))) = [first, second, third] := by
  have lowest : 0x80 ≤ second.toNat := by split at low <;> omega
  have highest : second.toNat ≤ 0xBF := by split at high <;> omega
  generalize isCode : ((first.toNat - 0xE0) * 0x40 + (second.toNat - 0x80)) * 0x40 +
    (third.toNat - 0x80) = code
  have long : 0x800 ≤ code := by split at low <;> omega
  have valid : code < 0xD800 ∨ 0xDFFF < code ∧ code < 0x110000 := by split at high <;> omega
  have same : (Char.ofNat code).toNat = code := toNat_ofNat valid
  have isFirst : UInt8.ofNat (0xE0 + code / 0x1000) = first := byte_ofNat (by omega)
  have isSecond : UInt8.ofNat (0x80 + code / 0x40 % 0x40) = second := byte_ofNat (by omega)
  have isThird : UInt8.ofNat (0x80 + code % 0x40) = third := byte_ofNat (by omega)
  simp only [encodeCharacter, same]
  rw [if_neg (by omega), if_neg (by omega), if_pos (by omega), isFirst, isSecond, isThird]

/-- The bounds on the second byte rule out long forms and code points that are too large. -/
theorem encodeCharacter_four {first second third fourth : UInt8}
    (lead : 0xF0 ≤ first.toNat ∧ first.toNat ≤ 0xF4)
    (low : (if first.toNat = 0xF0 then 0x90 else 0x80) ≤ second.toNat)
    (high : second.toNat ≤ if first.toNat = 0xF4 then 0x8F else 0xBF)
    (lowThird : 0x80 ≤ third.toNat) (highThird : third.toNat ≤ 0xBF)
    (lowFourth : 0x80 ≤ fourth.toNat) (highFourth : fourth.toNat ≤ 0xBF) :
    encodeCharacter (Char.ofNat ((((first.toNat - 0xF0) * 0x40 + (second.toNat - 0x80)) * 0x40 +
      (third.toNat - 0x80)) * 0x40 + (fourth.toNat - 0x80))) = [first, second, third, fourth] := by
  have lowest : 0x80 ≤ second.toNat := by split at low <;> omega
  have highest : second.toNat ≤ 0xBF := by split at high <;> omega
  generalize isCode : (((first.toNat - 0xF0) * 0x40 + (second.toNat - 0x80)) * 0x40 +
    (third.toNat - 0x80)) * 0x40 + (fourth.toNat - 0x80) = code
  have long : 0x10000 ≤ code := by split at low <;> omega
  have small : code < 0x110000 := by split at high <;> omega
  have same : (Char.ofNat code).toNat = code := toNat_ofNat (Or.inr ⟨by omega, small⟩)
  have isFirst : UInt8.ofNat (0xF0 + code / 0x40000) = first := byte_ofNat (by omega)
  have isSecond : UInt8.ofNat (0x80 + code / 0x1000 % 0x40) = second := byte_ofNat (by omega)
  have isThird : UInt8.ofNat (0x80 + code / 0x40 % 0x40) = third := byte_ofNat (by omega)
  have isFourth : UInt8.ofNat (0x80 + code % 0x40) = fourth := byte_ofNat (by omega)
  simp only [encodeCharacter, same]
  rw [if_neg (by omega), if_neg (by omega), if_neg (by omega), isFirst, isSecond, isThird, isFourth]

theorem decodeFrom_rest_inv {position : Nat} {character : Char} {bytes : List UInt8} {text : Text}
    (decoded : (do
      let others ← decodeFrom position none bytes
      pure (character :: others)) = Except.ok text) :
    ∃ others, text = character :: others ∧ decodeFrom position none bytes = .ok others := by
  cases found : decodeFrom position none bytes with
  | error fault =>
    rw [found] at decoded
    exact absurd decoded (by simp [bind, Except.bind])
  | ok others =>
    rw [found] at decoded
    exact ⟨others, (Except.ok.inj decoded).symm, rfl⟩

/-- A sequence of which bytes are missing goes on with a byte within its bounds. -/
theorem decodeFrom_next_inv {position : Nat} {sequence : Sequence} (more : 1 < sequence.missing)
    {bytes : List UInt8} {text : Text}
    (decoded : decodeFrom position (some sequence) bytes = .ok text) :
    ∃ byte rest, bytes = byte :: rest ∧ sequence.low ≤ byte.toNat ∧ byte.toNat ≤ sequence.high ∧
      decodeFrom (position + 1) (some (sequence.extend byte.toNat)) rest = .ok text := by
  cases bytes with
  | nil => exact absurd decoded (by simp [decodeFrom])
  | cons byte rest =>
    have goesOn : ¬ (sequence.extend byte.toNat).missing = 0 := by
      show ¬ sequence.missing - 1 = 0
      omega
    rw [decodeFrom_some, if_neg goesOn] at decoded
    split at decoded
    · next within => exact ⟨byte, rest, rfl, within.1, within.2, decoded⟩
    · exact absurd decoded (by simp)

/-- A sequence of which one byte is missing is completed by a byte within its bounds. -/
theorem decodeFrom_last_inv {position : Nat} {sequence : Sequence} (one : sequence.missing = 1)
    {bytes : List UInt8} {text : Text}
    (decoded : decodeFrom position (some sequence) bytes = .ok text) :
    ∃ byte rest others, bytes = byte :: rest ∧ sequence.low ≤ byte.toNat ∧
      byte.toNat ≤ sequence.high ∧
      text = Char.ofNat (sequence.value * 0x40 + (byte.toNat - 0x80)) :: others ∧
      decodeFrom (position + 1) none rest = .ok others := by
  cases bytes with
  | nil => exact absurd decoded (by simp [decodeFrom])
  | cons byte rest =>
    have ends : (sequence.extend byte.toNat).missing = 0 := by
      show sequence.missing - 1 = 0
      omega
    rw [decodeFrom_some, if_pos ends] at decoded
    split at decoded
    · next within =>
      obtain ⟨others, isText, further⟩ := decodeFrom_rest_inv decoded
      exact ⟨byte, rest, others, rfl, within.1, within.2, isText, further⟩
    · exact absurd decoded (by simp)

/-- What a decoder takes from the front are the bytes of a character. -/
theorem decodeFrom_cons_inv {position : Nat} {byte : UInt8} {rest : List UInt8} {text : Text}
    (decoded : decodeFrom position none (byte :: rest) = .ok text) :
    ∃ character others next more, text = character :: others ∧
      byte :: rest = encodeCharacter character ++ more ∧
      decodeFrom next none more = .ok others := by
  rw [decodeFrom_none] at decoded
  split at decoded
  · next single =>
    obtain ⟨others, isText, further⟩ := decodeFrom_rest_inv decoded
    exact ⟨_, others, _, rest, isText, by rw [encodeCharacter_one single]; rfl, further⟩
  cases opened : Sequence.open? position byte with
  | none =>
    rw [opened] at decoded
    exact absurd decoded (by simp)
  | some sequence =>
    rw [opened] at decoded
    -- The first byte says how many bytes follow it.
    simp only [Sequence.open?] at opened
    split at opened
    · next lead =>
      obtain rfl := Option.some.inj opened
      obtain ⟨second, more, others, rfl, low, high, isText, further⟩ :=
        decodeFrom_last_inv rfl decoded
      exact ⟨_, others, _, more, isText, by rw [encodeCharacter_two lead low high]; rfl, further⟩
    split at opened
    · next lead =>
      obtain rfl := Option.some.inj opened
      obtain ⟨second, _, rfl, low, high, onward⟩ := decodeFrom_next_inv (by simp) decoded
      obtain ⟨third, more, others, rfl, lowThird, highThird, isText, further⟩ :=
        decodeFrom_last_inv rfl onward
      refine ⟨_, others, _, more, isText, ?_, further⟩
      simp only [Sequence.extend]
      rw [encodeCharacter_three lead low high lowThird highThird]
      rfl
    split at opened
    · next lead =>
      obtain rfl := Option.some.inj opened
      obtain ⟨second, _, rfl, low, high, onward⟩ := decodeFrom_next_inv (by simp) decoded
      obtain ⟨third, _, rfl, lowThird, highThird, onward⟩ :=
        decodeFrom_next_inv (by simp [Sequence.extend]) onward
      obtain ⟨fourth, more, others, rfl, lowFourth, highFourth, isText, further⟩ :=
        decodeFrom_last_inv rfl onward
      refine ⟨_, others, _, more, isText, ?_, further⟩
      simp only [Sequence.extend]
      rw [encodeCharacter_four lead low high lowThird highThird lowFourth highFourth]
      rfl
    · exact absurd opened (by simp)

theorem encodeCharacter_ne_nil (character : Char) : encodeCharacter character ≠ [] := by
  unfold encodeCharacter
  simp only
  split
  · simp
  split
  · simp
  split <;> simp

/-- Bytes that can be decoded are the encoding of what they are decoded to. -/
theorem encode_of_decodeFrom {position : Nat} {bytes : List UInt8} {text : Text}
    (decoded : decodeFrom position none bytes = .ok text) : encode text = bytes := by
  -- Every character takes at least one byte, so the bytes that are left become fewer.
  induction size : bytes.length using Nat.strongRecOn generalizing position bytes text with
  | _ length inductionHypothesis =>
    cases bytes with
    | nil => rw [← Except.ok.inj decoded]; rfl
    | cons byte rest =>
      obtain ⟨character, others, next, more, rfl, isFront, further⟩ := decodeFrom_cons_inv decoded
      have some : 0 < (encodeCharacter character).length :=
        List.length_pos_iff.mpr (encodeCharacter_ne_nil character)
      have fewer : more.length < length := by
        rw [← size, isFront, List.length_append]
        omega
      rw [isFront, ← inductionHypothesis _ fewer further rfl]
      rfl

/-- Encoding undoes decoding: bytes that are text are the encoding of that text only. -/
theorem encode_of_decode {bytes : List UInt8} {text : Text} (decoded : decode bytes = .ok text) :
    encode text = bytes :=
  encode_of_decodeFrom decoded

/-! ### Single bytes -/

theorem le_toNat_of_mem_encodeCharacter {character : Char} (several : 0x80 ≤ character.toNat)
    {byte : UInt8} (member : byte ∈ encodeCharacter character) : 0x80 ≤ byte.toNat := by
  have small : character.toNat < 0x110000 := by
    have valid : character.toNat < 0xD800 ∨
        0xDFFF < character.toNat ∧ character.toNat < 0x110000 := character.valid
    omega
  have large {number : Nat} (low : 0x80 ≤ number) (high : number < 0x100) :
      0x80 ≤ (UInt8.ofNat number).toNat := by rwa [byte_toNat high]
  unfold encodeCharacter at member
  generalize character.toNat = code at several small member
  simp only [if_neg (Nat.not_lt.mpr several)] at member
  split at member
  · simp only [List.mem_cons, List.not_mem_nil, or_false] at member
    rcases member with rfl | rfl <;> exact large (by omega) (by omega)
  split at member
  · simp only [List.mem_cons, List.not_mem_nil, or_false] at member
    rcases member with rfl | rfl | rfl <;> exact large (by omega) (by omega)
  · simp only [List.mem_cons, List.not_mem_nil, or_false] at member
    rcases member with rfl | rfl | rfl | rfl <;> exact large (by omega) (by omega)

/-- A character of one byte is found among the bytes of a text if and only if it is in the text. -/
theorem mem_encode_iff {single : Char} (isSingle : single.toNat < 0x80) (text : Text) :
    UInt8.ofNat single.toNat ∈ encode text ↔ single ∈ text := by
  have number : (UInt8.ofNat single.toNat).toNat = single.toNat := byte_toNat (by omega)
  have own (character : Char) : UInt8.ofNat single.toNat ∈ encodeCharacter character ↔
      single = character := by
    constructor
    · intro member
      by_cases alone : character.toNat < 0x80
      · simp only [encodeCharacter, if_pos alone, List.mem_singleton] at member
        have same := congrArg UInt8.toNat member
        rw [number, byte_toNat (by omega)] at same
        exact Char.toNat_inj.mp same
      · have large := le_toNat_of_mem_encodeCharacter (Nat.le_of_not_lt alone) member
        omega
    · rintro rfl
      simp [encodeCharacter, isSingle]
  simp [encode, own]

/-! ### Line ends -/

/-- A text without carriage returns has its line ends unified already. -/
theorem unifyNewlines_of_notMem {text : Text} (noReturn : '\r' ∉ text) :
    unifyNewlines text = text := by
  induction text with
  | nil => rfl
  | cons character rest inductionHypothesis =>
    have notReturn : character ≠ '\r' := by
      intro equal
      exact noReturn (equal ▸ List.mem_cons_self)
    have others := inductionHypothesis fun member => noReturn (List.mem_cons_of_mem _ member)
    rw [unifyNewlines.eq_4 character rest (fun _ equal _ => notReturn equal) notReturn, others]

theorem unifyNewlines_ne_nil {text : Text} (nonempty : text ≠ []) : unifyNewlines text ≠ [] := by
  fun_cases unifyNewlines text with
  | case1 => exact absurd rfl nonempty
  | case2 | case3 | case4 => exact List.cons_ne_nil _ _

theorem notMem_unifyNewlines (text : Text) : '\r' ∉ unifyNewlines text := by
  fun_induction unifyNewlines text with
  | case1 => simp
  | case2 rest inductionHypothesis => simp [inductionHypothesis]
  | case3 rest _ inductionHypothesis => simp [inductionHypothesis]
  | case4 character rest _ notReturn inductionHypothesis =>
    simp [inductionHypothesis, Ne.symm notReturn]

theorem unifyNewlines_eq_iff {text : Text} : unifyNewlines text = text ↔ '\r' ∉ text :=
  ⟨fun same => same ▸ notMem_unifyNewlines text, unifyNewlines_of_notMem⟩

end MiniShell.Text
