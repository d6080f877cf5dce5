/-
  Octets read as UTF-8, with U+FFFD for what is not UTF-8.

  The reader is a machine.  Between characters it waits for a first octet; inside one it holds the
  bits read so far, the number of octets still owed and the range the next octet must lie in (the
  first continuation octet is restricted after E0, ED, F0 and F4, which excludes overlong forms,
  surrogates and values beyond U+10FFFF).  An octet that does not fit closes the unfinished
  character with one U+FFFD and is then read as a first octet itself, so that each maximal
  unfinished piece gives one replacement character.
-/
import ShaderWeave.Text

namespace ShaderWeave.Text.Utf8

/-- A character in progress: its bits so far, the octets owed, the range of the next octet. -/
structure Pending where
  bits : Nat
  owed : Nat
  low : Nat
  high : Nat

/-- What a first octet says. -/
inductive First where
  | char (c : Char)
  | pending (p : Pending)
  | invalid

/-- The replacement character. -/
def replacement : Char := Char.ofNat 0xFFFD

/-- Reads an octet that stands where a character may begin. -/
def first (b : Nat) : First :=
  if b ≤ 0x7F then .char (Char.ofNat b)
  else if b < 0xC2 then .invalid
  else if b ≤ 0xDF then .pending ⟨b - 0xC0, 1, 0x80, 0xBF⟩
  else if b = 0xE0 then .pending ⟨0, 2, 0xA0, 0xBF⟩
  else if b = 0xED then .pending ⟨0xD, 2, 0x80, 0x9F⟩
  else if b ≤ 0xEF then .pending ⟨b - 0xE0, 2, 0x80, 0xBF⟩
  else if b = 0xF0 then .pending ⟨0, 3, 0x90, 0xBF⟩
  else if b ≤ 0xF3 then .pending ⟨b - 0xF0, 3, 0x80, 0xBF⟩
  else if b = 0xF4 then .pending ⟨4, 3, 0x80, 0x8F⟩
  else .invalid

mutual

/-- The text of octets that start between characters. -/
def decode : List Nat → Text
  | [] => []
  | b :: rest =>
    match first b with
    | .char c => c :: decode rest
    | .pending p => decodeFrom p rest
    | .invalid => replacement :: decode rest

/-- The text of octets that start inside a character. -/
def decodeFrom (p : Pending) : List Nat → Text
  | [] => [replacement]
  | b :: rest =>
    if p.low ≤ b ∧ b ≤ p.high then
      let bits := p.bits * 64 + (b - 0x80)
      match p.owed with
      | 0 | 1 => Char.ofNat bits :: decode rest
      | n + 2 => decodeFrom ⟨bits, n + 1, 0x80, 0xBF⟩ rest
    else
      match first b with
      | .char c => replacement :: c :: decode rest
      | .pending q => replacement :: decodeFrom q rest
      | .invalid => replacement :: replacement :: decode rest

end

example : decode [0xE2, 0x82, 0xAC] = "€".toList := by decide
example : decode [0xF0, 0x9F, 0x8E, 0x7A] = [replacement, 'z'] := by decide
example : decode [0xE0, 0x80, 0x80] = [replacement, replacement, replacement] := by decide

end ShaderWeave.Text.Utf8
