import PerCoreShard.Net.Http.Types

/-! Numbers in texts. -/
namespace PerCoreShard

/-- The value of a digit; every other byte has a value that is too large for any base. -/
def digit (b : UInt8) : ℕ :=
  if 48 ≤ b ∧ b ≤ 57 then b.toNat - 48
  else if 97 ≤ b ∧ b ≤ 102 then b.toNat - 87
  else if 65 ≤ b ∧ b ≤ 70 then b.toNat - 55
  else 16

/-- A list of bytes is looked through, not all the bytes there are. -/
local instance (priority := high) decidableForallMemBytes (p : UInt8 → Prop) [DecidablePred p]
    (bytes : Bytes) : Decidable (∀ b ∈ bytes, p b) :=
  List.decidableBAll p bytes

/-- A number in the given base. -/
def number (base : ℕ) (bytes : Bytes) : Option ℕ :=
  if bytes ≠ [] ∧ ∀ b ∈ bytes, digit b < base then
    some (bytes.foldl (fun n b => n * base + digit b) 0)
  else none

end PerCoreShard
