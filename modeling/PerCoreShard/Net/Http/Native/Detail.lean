import Mathlib.Data.Nat.Digits.Defs
import PerCoreShard.Net.Http.Types

/-! Helpers shared by the two serializers: recognising chunked framing and writing chunks. -/
namespace PerCoreShard

/-- `haystack` in lower case contains `needle`, which is given in lower case. -/
def icontains (haystack needle : Bytes) : Bool := decide (needle <:+: haystack.map toLower)

def hasChunkedEncoding (headers : List Header) : Bool :=
  headers.any fun h => iequals h.name (ascii "Transfer-Encoding") && icontains h.value (ascii "chunked")

/-- The lower-case hexadecimal digit of a number below 16, as `printf` writes it. -/
def hexDigit (d : ℕ) : UInt8 := if d < 10 then UInt8.ofNat (48 + d) else UInt8.ofNat (87 + d)

/-- `%zx` of a positive size. -/
def hexSize (n : ℕ) : Bytes := (Nat.digits 16 n).reverse.map hexDigit

/-- What `append_chunk` appends: one frame for a nonempty piece, and after the last piece the
terminating frame. -/
def chunkFrame (chunk : Bytes) (isLast : Bool) : Bytes :=
  (if chunk.length > 0 then hexSize chunk.length ++ crlf ++ chunk ++ crlf else []) ++
    (if isLast then ascii "0" ++ crlf ++ crlf else [])

def appendChunk (out chunk : Bytes) (isLast : Bool) : Bytes := out ++ chunkFrame chunk isLast

/-- The frame of a nonempty piece, and the one that ends a chunked body. -/
def sizedChunk (chunk : Bytes) : Bytes := hexSize chunk.length ++ crlf ++ chunk ++ crlf
def lastChunk : Bytes := ascii "0" ++ crlf ++ crlf

/-- `std::to_string` of an unsigned number. -/
def decimal (n : ℕ) : Bytes :=
  if n = 0 then ascii "0" else (Nat.digits 10 n).reverse.map hexDigit

theorem transferEncoding_ne_connection (h : Header)
    (ht : iequals h.name (ascii "Transfer-Encoding") = true) :
    iequals h.name (ascii "Connection") = false := by
  rw [iequals_iff] at ht
  rw [Bool.eq_false_iff,ne_eq,iequals_iff,ht]
  decide

/-- The `Connection` field has no part in the framing decision. -/
@[simp] theorem hasChunkedEncoding_setConnection (headers : List Header) (value : Bytes) :
    hasChunkedEncoding (setHeader headers (ascii "Connection") value) = hasChunkedEncoding headers := by
  apply any_setHeader
  intro h hp
  exact transferEncoding_ne_connection h (by simp only [Bool.and_eq_true] at hp; exact hp.1)

end PerCoreShard
