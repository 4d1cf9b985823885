import Mathlib.Data.List.Basic
import Mathlib.Data.List.Infix

/-! Library-independent HTTP message heads. Strings are byte lists, as `std::string` is. -/
namespace PerCoreShard

abbrev Bytes := List UInt8

/-- The bytes of an ASCII literal. -/
def ascii (s : String) : Bytes := s.toList.map fun c => UInt8.ofNat c.toNat

def crlf : Bytes := [13,10]

structure Header where
  name : Bytes
  value : Bytes
  deriving DecidableEq, Repr

structure RequestHead where
  method : Bytes := []
  target : Bytes := []
  version : ℕ := 11
  headers : List Header := []
  deriving DecidableEq, Repr

structure ResponseHead where
  status : ℕ := 0
  reason : Bytes := []
  version : ℕ := 11
  headers : List Header := []
  deriving DecidableEq, Repr

/-- `std::tolower` in the C locale. -/
def toLower (c : UInt8) : UInt8 := if 65 ≤ c ∧ c ≤ 90 then c + 32 else c

/-- `detail::header_name_iequals` and `native::detail::iequals`. -/
def iequals (a b : Bytes) : Bool := a.length == b.length && a.map toLower == b.map toLower

theorem iequals_iff (a b : Bytes) : iequals a b = true ↔ a.map toLower = b.map toLower := by
  constructor
  · simp [iequals]
  · intro h
    have hl := congrArg List.length h
    simp only [List.length_map] at hl
    simp [iequals,hl,h]

/-- Remove every header of that name, then append the new one. -/
def setHeader (headers : List Header) (name value : Bytes) : List Header :=
  headers.filter (fun h => !iequals h.name name) ++ [⟨name,value⟩]

def hasHeader (headers : List Header) (name : Bytes) : Bool :=
  headers.any fun h => iequals h.name name

/-- Replacing one header leaves every header of another name as it was. -/
theorem filter_setHeader (p : Header → Bool) (headers : List Header) (name value : Bytes)
    (hp : ∀ h, p h = true → iequals h.name name = false) :
    (setHeader headers name value).filter p = headers.filter p := by
  have hnew : p ⟨name,value⟩ = false := by
    cases h : p ⟨name,value⟩ with
    | false => rfl
    | true =>
      have := hp _ h
      simp [iequals] at this
  have hold : ∀ h, (p h && !iequals h.name name) = p h := by
    intro h
    cases hph : p h with
    | false => rfl
    | true => simp [hp h hph]
  simp [setHeader,List.filter_append,List.filter_filter,hnew,hold]

theorem any_setHeader (p : Header → Bool) (headers : List Header) (name value : Bytes)
    (hp : ∀ h, p h = true → iequals h.name name = false) :
    (setHeader headers name value).any p = headers.any p := by
  have h := filter_setHeader p headers name value hp
  simp only [List.any_eq_not_all_not]
  have hall : ∀ l : List Header, l.all (fun h => !p h) = (l.filter p).isEmpty := by
    intro l
    induction l with
    | nil => rfl
    | cons x l ih => cases hx : p x <;> simp [hx,ih]
  rw [hall,hall,h]

end PerCoreShard
