import Mathlib.Data.List.DropRight
import PerCoreShard.Net.Http.Native.Detail

/-! Where a message ends by the rules of HTTP, and where the serializers think it does. -/
namespace PerCoreShard

def isBlank (b : UInt8) : Bool := b == 32 || b == 9

/-- The last of the codings listed in a `Transfer-Encoding` field, without the blanks before it
and the spaces behind it. A tab behind it belongs to the coding (`header_value_te_chunked_last`). -/
def lastCoding (value : Bytes) : Bytes :=
  (((value.reverse.takeWhile fun b => b != 44).reverse).dropWhile isBlank).rdropWhile
    fun b => b == 32

def isTransferEncoding (h : Header) : Bool := iequals h.name (ascii "Transfer-Encoding")

/-- The final transfer coding is `chunked`. -/
def finallyChunked (headers : List Header) : Bool :=
  (headers.filter isTransferEncoding).getLast?.any fun h =>
    iequals (lastCoding h.value) (ascii "chunked")

/-- The fields that say where a message ends. -/
def framingFields (headers : List Header) : List Header :=
  headers.filter fun h => isTransferEncoding h || iequals h.name (ascii "Content-Length")

theorem infix_lastCoding (value : Bytes) : lastCoding value <:+: value := by
  have h1 : ((value.reverse.takeWhile fun b => b != 44).reverse) <:+ value := by
    rw [← List.reverse_prefix,List.reverse_reverse]
    exact List.takeWhile_prefix _
  have h2 := (List.dropWhile_suffix isBlank).trans h1
  exact (List.rdropWhile_prefix _ _).isInfix.trans h2.isInfix

theorem hasChunkedEncoding_of_finallyChunked {headers : List Header}
    (h : finallyChunked headers = true) : hasChunkedEncoding headers = true := by
  obtain ⟨field,hlast,hcoding⟩ := (Option.any_eq_true _ _).mp h
  have hmem := List.mem_filter.mp (List.mem_of_getLast? hlast)
  refine List.any_eq_true.mpr ⟨field,hmem.1,?_⟩
  rw [Bool.and_eq_true]
  refine ⟨hmem.2,?_⟩
  rw [iequals_iff] at hcoding
  rw [icontains,decide_eq_true_iff]
  have : (ascii "chunked").map toLower = ascii "chunked" := by decide
  rw [this] at hcoding
  rw [← hcoding]
  exact (infix_lastCoding _).map _

theorem any_of_hasChunkedEncoding {headers : List Header}
    (h : hasChunkedEncoding headers = true) : headers.any isTransferEncoding = true := by
  obtain ⟨field,hmem,hfield⟩ := List.any_eq_true.mp h
  rw [Bool.and_eq_true] at hfield
  exact List.any_eq_true.mpr ⟨field,hmem,hfield.1⟩

/-- In a message whose transfer codings end in `chunked`, if it has any, the scan of the
serializers finds out the framing. -/
theorem hasChunkedEncoding_eq {headers : List Header}
    (h : headers.any isTransferEncoding = true → finallyChunked headers = true) :
    hasChunkedEncoding headers = finallyChunked headers := by
  cases hf : finallyChunked headers with
  | true => exact hasChunkedEncoding_of_finallyChunked hf
  | false =>
    rw [Bool.eq_false_iff]
    intro hc
    rw [h (any_of_hasChunkedEncoding hc)] at hf
    cases hf

theorem hasChunkedEncoding_framingFields (headers : List Header) :
    hasChunkedEncoding (framingFields headers) = hasChunkedEncoding headers := by
  unfold hasChunkedEncoding framingFields
  rw [List.any_filter]
  congr 1
  funext field
  unfold isTransferEncoding
  cases iequals field.name (ascii "Transfer-Encoding") <;> simp

/-- Filters that leave the framing fields alone leave the framing alone. -/
theorem hasChunkedEncoding_congr {headers headers' : List Header}
    (h : framingFields headers = framingFields headers') :
    hasChunkedEncoding headers = hasChunkedEncoding headers' := by
  rw [← hasChunkedEncoding_framingFields,h,hasChunkedEncoding_framingFields]

end PerCoreShard
