import LoxLang.Text.Integer
import LoxLang.Text.Quoted

/-! # Strict decoding of UTF-8

Bytes are decoded one at a time. Between characters nothing is pending; inside a sequence the
decoder knows how many bytes are still owed and the range of the next one, which is what excludes
overlong forms, surrogates and values beyond the last code point. The first defect ends the
decoding. A byte order mark is a character like any other. -/

namespace LoxLang
namespace Text
namespace Utf8

/-- Why bytes cannot be decoded. -/
inductive Reason where
  /-- A byte that starts no character. -/
  | invalidStart
  /-- The bytes end inside a character. -/
  | unexpectedEnd
  /-- A byte that cannot continue the character begun before it. -/
  | invalidContinuation
  deriving DecidableEq

def Reason.message : Reason → String
  | .invalidStart => "invalid start byte"
  | .unexpectedEnd => "unexpected end of data"
  | .invalidContinuation => "invalid continuation byte"

/-- Bytes that cannot be decoded: the first of them, how many they are, and where they start. -/
structure Defect where
  position : Nat
  lead : UInt8
  count : Nat
  reason : Reason
  deriving DecidableEq

/-- The wording of a defect: one bad byte is shown, several are given by their positions. -/
def Defect.message (d : Defect) : String :=
  let place :=
    if d.count = 1 then
      "byte 0x" ++ String.ofList (hex 2 d.lead.toNat) ++ " in position " ++ natural d.position
    else
      "bytes in position " ++ natural d.position ++ "-" ++ natural (d.position + d.count - 1)
  "'utf-8' codec can't decode " ++ place ++ ": " ++ d.reason.message

/-- A character whose first bytes were read. -/
structure Pending where
  /-- The bytes still owed. -/
  owed : Nat
  /-- The least next byte. -/
  low : Nat
  /-- The greatest next byte. -/
  high : Nat
  bits : Nat
  lead : UInt8
  count : Nat

/-- What a byte beyond ASCII starts, if it starts a character. -/
def Pending.start? (b : UInt8) : Option Pending :=
  let n := b.toNat
  if 0xC2 ≤ n ∧ n ≤ 0xDF then some ⟨1, 0x80, 0xBF, n - 0xC0, b, 1⟩
  else if n = 0xE0 then some ⟨2, 0xA0, 0xBF, 0, b, 1⟩
  else if n = 0xED then some ⟨2, 0x80, 0x9F, 0xD, b, 1⟩
  else if 0xE1 ≤ n ∧ n ≤ 0xEF then some ⟨2, 0x80, 0xBF, n - 0xE0, b, 1⟩
  else if n = 0xF0 then some ⟨3, 0x90, 0xBF, 0, b, 1⟩
  else if 0xF1 ≤ n ∧ n ≤ 0xF3 then some ⟨3, 0x80, 0xBF, n - 0xF0, b, 1⟩
  else if n = 0xF4 then some ⟨3, 0x80, 0x8F, 4, b, 1⟩
  else none

/-- The defect that the pending bytes are when they end at `position`. -/
def Pending.defect (p : Pending) (position : Nat) (reason : Reason) : Defect :=
  ⟨position - p.count, p.lead, p.count, reason⟩

/-- Decodes the bytes that stand from `position` on, after the pending ones. -/
def decodeFrom : Nat → Option Pending → List UInt8 → Except Defect (List Char)
  | _, none, [] => .ok []
  | position, some p, [] => .error (p.defect position .unexpectedEnd)
  | position, none, b :: rest =>
    if b.toNat < 0x80 then
      (Char.ofNat b.toNat :: ·) <$> decodeFrom (position + 1) none rest
    else
      match Pending.start? b with
      | none => .error ⟨position, b, 1, .invalidStart⟩
      | some p => decodeFrom (position + 1) (some p) rest
  | position, some p, b :: rest =>
    if p.low ≤ b.toNat ∧ b.toNat ≤ p.high then
      let bits := p.bits * 64 + (b.toNat - 0x80)
      if p.owed ≤ 1 then
        (Char.ofNat bits :: ·) <$> decodeFrom (position + 1) none rest
      else
        decodeFrom (position + 1) (some ⟨p.owed - 1, 0x80, 0xBF, bits, p.lead, p.count + 1⟩) rest
    else .error (p.defect position .invalidContinuation)

/-- The characters that the bytes encode. -/
def decode (bytes : List UInt8) : Except Defect (List Char) :=
  decodeFrom 0 none bytes

end Utf8
end Text
end LoxLang
