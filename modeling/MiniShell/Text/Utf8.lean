/-
This file converts between texts and the bytes of files. Text is written in UTF-8.
Reading is strict: the first sequence that is not the encoding of a character is
reported, with its position. Files are read in blocks, which shows in the positions.
-/

import MiniShell.Text.Basic

namespace MiniShell.Text

/-! ### Encoding -/

/-- The bytes of a character. -/
def encodeCharacter (character : Char) : List UInt8 :=
  let code := character.toNat
  if code < 0x80 then [.ofNat code]
  else if code < 0x800 then [.ofNat (0xC0 + code / 0x40), .ofNat (0x80 + code % 0x40)]
  else if code < 0x10000 then
    [.ofNat (0xE0 + code / 0x1000), .ofNat (0x80 + code / 0x40 % 0x40),
      .ofNat (0x80 + code % 0x40)]
  else
    [.ofNat (0xF0 + code / 0x40000), .ofNat (0x80 + code / 0x1000 % 0x40),
      .ofNat (0x80 + code / 0x40 % 0x40), .ofNat (0x80 + code % 0x40)]

/-- The bytes of a text. -/
def encode (text : Text) : List UInt8 := text.flatMap encodeCharacter

/-! ### Decoding -/

/-- What is wrong with a sequence of bytes. -/
inductive SequenceFlaw
  /-- No sequence begins with this byte. -/
  | badStart
  /-- A byte that does not continue the sequence follows. -/
  | badContinuation
  /-- The bytes end inside the sequence. -/
  | unfinished
  deriving DecidableEq

/-- Bytes that are not the encoding of a text: where the sequence begins, its first byte,
how many bytes of it there are, and what is wrong. -/
structure DecodeFault where
  position : Nat
  byte : UInt8
  length : Nat
  flaw : SequenceFlaw
  deriving DecidableEq

/-- A sequence of which some bytes have been read. -/
structure Sequence where
  /-- Where it begins. -/
  start : Nat
  /-- Its first byte. -/
  byte : UInt8
  /-- How many bytes have been read. -/
  length : Nat
  /-- How many bytes are still to come. -/
  missing : Nat
  /-- The value of the bits read. -/
  value : Nat
  /-- The least byte that may come next. -/
  low : Nat
  /-- The greatest byte that may come next. -/
  high : Nat

/-- The sequence that a byte opens, unless it stands for a character by itself or opens
none. The bounds on the next byte rule out long forms, surrogates and code points that
are too large. -/
def Sequence.open? (position : Nat) (byte : UInt8) : Option Sequence :=
  let number := byte.toNat
  if 0xC2 ≤ number ∧ number ≤ 0xDF then
    some ⟨position, byte, 1, 1, number - 0xC0, 0x80, 0xBF⟩
  else if 0xE0 ≤ number ∧ number ≤ 0xEF then
    some ⟨position, byte, 1, 2, number - 0xE0,
      if number = 0xE0 then 0xA0 else 0x80, if number = 0xED then 0x9F else 0xBF⟩
  else if 0xF0 ≤ number ∧ number ≤ 0xF4 then
    some ⟨position, byte, 1, 3, number - 0xF0,
      if number = 0xF0 then 0x90 else 0x80, if number = 0xF4 then 0x8F else 0xBF⟩
  else none

/-- The sequence with one more byte. -/
def Sequence.extend (sequence : Sequence) (number : Nat) : Sequence :=
  { sequence with
    length := sequence.length + 1
    missing := sequence.missing - 1
    value := sequence.value * 0x40 + (number - 0x80)
    low := 0x80
    high := 0xBF }

/-- Decodes bytes from a position on. `sequence` holds a character of which some bytes
have been read. -/
def decodeFrom (position : Nat) (sequence : Option Sequence) :
    List UInt8 → Except DecodeFault Text
  | [] =>
    match sequence with
    | none => .ok []
    | some sequence => .error ⟨sequence.start, sequence.byte, sequence.length, .unfinished⟩
  | byte :: rest =>
    match sequence with
    | none =>
      if byte.toNat < 0x80 then do
        let others ← decodeFrom (position + 1) none rest
        pure (Char.ofNat byte.toNat :: others)
      else
        match Sequence.open? position byte with
        | none => .error ⟨position, byte, 1, .badStart⟩
        | some sequence => decodeFrom (position + 1) (some sequence) rest
    | some sequence =>
      if sequence.low ≤ byte.toNat ∧ byte.toNat ≤ sequence.high then
        let longer := sequence.extend byte.toNat
        if longer.missing = 0 then do
          let others ← decodeFrom (position + 1) none rest
          pure (Char.ofNat longer.value :: others)
        else decodeFrom (position + 1) (some longer) rest
      else .error ⟨sequence.start, sequence.byte, sequence.length, .badContinuation⟩

/-- The text that bytes encode. -/
def decode (bytes : List UInt8) : Except DecodeFault Text := decodeFrom 0 none bytes

/-! ### Reading in blocks -/

/-- The size of the blocks in which files are read. -/
def blockSize : Nat := 8192

/-- The number of bytes at the end of a block that begin a character of the next one. -/
def carried (bytes : List UInt8) (block : Nat) : Nat :=
  ([1, 2, 3].find? fun count =>
    count ≤ block &&
      match (bytes.drop (block - count)).head?.bind (Sequence.open? 0) with
      | none => false
      | some sequence => decide (count ≤ sequence.missing)).getD 0

/-- A fault as a reader of blocks sees it. A position counts from the beginning of the block
that holds the offending byte, and the bytes that the block before left over stand in front.
A sequence that the end of the file cuts off is all that is left to decode. -/
def DecodeFault.inBlocks (bytes : List UInt8) (fault : DecodeFault) : DecodeFault :=
  let offender :=
    match fault.flaw with
    | .badContinuation => fault.position + fault.length
    | _ => fault.position
  let block := offender - offender % blockSize
  match fault.flaw with
  | .unfinished => { fault with position := 0 }
  | _ => { fault with position := fault.position - (block - carried bytes block) }

/-! ### Line ends -/

/-- Turns a carriage return, with or without a line feed after it, into a line feed. -/
def unifyNewlines : Text → Text
  | [] => []
  | '\r' :: '\n' :: rest => '\n' :: unifyNewlines rest
  | '\r' :: rest => '\n' :: unifyNewlines rest
  | character :: rest => character :: unifyNewlines rest

end MiniShell.Text
