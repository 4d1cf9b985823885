import PerCoreShard.Net.Http.Framing
import PerCoreShard.Net.Http.Number

/-! How a recipient reads the body of a message by the length rules of HTTP. A body written
as chunks is read back as it was. -/
namespace PerCoreShard

/-- The bytes up to the end of the line, and those behind it. -/
def readLine : Bytes → Option (Bytes × Bytes)
  | [] => none
  | b::rest =>
    if crlf.isPrefixOf (b::rest) then some ([],rest.drop 1)
    else (readLine rest).map fun p => (b::p.1,p.2)

/-- Skip the fields behind the last chunk. -/
def readTrailers : ℕ → Bytes → Option Bytes
  | 0,_ => none
  | fuel+1,bytes => do
    let (line,rest) ← readLine bytes
    if line = [] then some rest else readTrailers fuel rest

/-- Read a chunked body; what follows a semicolon in a size line is an extension. -/
def readChunks : ℕ → Bytes → Option (Bytes × Bytes)
  | 0,_ => none
  | fuel+1,bytes => do
    let (line,rest) ← readLine bytes
    let size ← number 16 (line.takeWhile fun b => b != 59)
    if size = 0 then (readTrailers (rest.length + 1) rest).map fun tail => ([],tail)
    else if crlf.isPrefixOf (rest.drop size) then
      (readChunks fuel (rest.drop (size + 2))).map fun p => (rest.take size ++ p.1,p.2)
    else none

def isContentLength (h : Header) : Bool := iequals h.name (ascii "Content-Length")

/-- The length a single `Content-Length` field gives. -/
def contentLength (headers : List Header) : Option ℕ :=
  match headers.filter isContentLength with
  | [h] => number 10 (h.value.rdropWhile fun b => b == 32)
  | _ => none

/-- The statuses whose responses have no body. -/
def bodiless (status : ℕ) : Bool := status == 204 || status == 304

/-- The ways in which a body finds its end, as `llhttp__after_headers_complete` tells them apart. -/
inductive BodyFraming
  | empty
  | length (n : ℕ)
  | chunked
  | untilClose
  deriving DecidableEq, Repr

def lengthFraming (n : ℕ) : BodyFraming := if n = 0 then .empty else .length n

/-- What the fields of a request announce. Transfer codings need `chunked` as the last of them,
and exclude a length. -/
def requestFraming (headers : List Header) : Option BodyFraming :=
  if headers.any isTransferEncoding then
    if finallyChunked headers && !headers.any isContentLength then some .chunked else none
  else if headers.any isContentLength then (contentLength headers).map lengthFraming
  else some .empty

/-- What the head of a response announces. -/
def responseFraming (head : ResponseHead) : Option BodyFraming :=
  if head.status ∈ [100,101,102,103,204,304] then some .empty
  else if head.headers.any isTransferEncoding then
    if head.headers.any isContentLength then none
    else if finallyChunked head.headers then some .chunked
    else some .untilClose
  else if head.headers.any isContentLength then (contentLength head.headers).map lengthFraming
  else if head.status / 100 = 1 then some .empty
  else some .untilClose

/-- Read the body of a request; the second component are the bytes behind it. -/
def readRequestBody (headers : List Header) (bytes : Bytes) : Option (Bytes × Bytes) :=
  match requestFraming headers with
  | some .empty => some ([],bytes)
  | some (.length n) => if n ≤ bytes.length then some (bytes.take n,bytes.drop n) else none
  | some .chunked => readChunks (bytes.length + 1) bytes
  | _ => none

/-- Read the body of a final response to a request with the given method; the second
component are the bytes behind the response. There is no result when the response does not
end before the connection does. -/
def readBody (method : Bytes) (head : ResponseHead) (bytes : Bytes) : Option (Bytes × Bytes) :=
  if method = ascii "HEAD" ∨ bodiless head.status then some ([],bytes)
  else if method = ascii "CONNECT" ∧ head.status / 100 = 2 then none
  else if head.headers.any isTransferEncoding then
    if finallyChunked head.headers then readChunks (bytes.length + 1) bytes else none
  else do
    let n ← contentLength head.headers
    if n ≤ bytes.length then some (bytes.take n,bytes.drop n) else none

theorem filter_framingFields (p : Header → Bool)
    (hp : ∀ h, p h = true → isTransferEncoding h = true ∨ isContentLength h = true)
    (headers : List Header) : (framingFields headers).filter p = headers.filter p := by
  rw [framingFields,List.filter_filter]
  refine List.filter_congr fun h _ => ?_
  cases hph : p h with
  | false => rfl
  | true =>
    rcases hp h hph with ht | hc
    · rw [ht]
      rfl
    · rw [show iequals h.name (ascii "Content-Length") = true from hc,Bool.or_true]
      rfl

theorem filter_isTransferEncoding (headers : List Header) :
    (framingFields headers).filter isTransferEncoding = headers.filter isTransferEncoding :=
  filter_framingFields _ (fun _ => .inl) headers

theorem filter_isContentLength (headers : List Header) :
    (framingFields headers).filter isContentLength = headers.filter isContentLength :=
  filter_framingFields _ (fun _ => .inr) headers

theorem framingFields_setConnection (headers : List Header) (value : Bytes) :
    framingFields (setHeader headers (ascii "Connection") value) = framingFields headers := by
  refine filter_setHeader _ headers _ _ fun h hp => ?_
  rcases Bool.or_eq_true _ _ |>.mp hp with ht | hc
  · exact transferEncoding_ne_connection h ht
  · rw [iequals_iff] at hc
    rw [Bool.eq_false_iff,ne_eq,iequals_iff,hc]
    decide

theorem readLine_append {line : Bytes} (h : 13 ∉ line) (tail : Bytes) :
    readLine (line ++ crlf ++ tail) = some (line,tail) := by
  induction line with
  | nil => rfl
  | cons b line ih =>
    rw [List.mem_cons,not_or] at h
    have hb : crlf.isPrefixOf (b::(line ++ crlf ++ tail)) = false := by
      simp [crlf,List.isPrefixOf,h.1]
    simp only [List.cons_append,readLine,hb,Bool.false_eq_true,if_false,ih h.2,Option.map_some]

theorem digit_hexDigit : ∀ d < 16, digit (hexDigit d) = d ∧ hexDigit d ≠ 13 ∧ hexDigit d ≠ 59 := by
  decide

theorem mem_hexSize {n : ℕ} {b : UInt8} (h : b ∈ hexSize n) : ∃ d < 16, hexDigit d = b := by
  obtain ⟨d,hd,hb⟩ := List.mem_map.mp h
  exact ⟨d,Nat.digits_lt_base (by decide) (List.mem_reverse.mp hd),hb⟩

/-- The digits of a number are read back as the number. -/
theorem foldl_digits {base : ℕ} (hlow : 1 < base) (hhigh : base ≤ 16) (n : ℕ) :
    ((Nat.digits base n).reverse.map hexDigit).foldl (fun n b => n * base + digit b) 0 = n := by
  rw [List.foldl_map,List.foldl_reverse]
  have hdigits : ∀ d ∈ Nat.digits base n, d < base := fun d => Nat.digits_lt_base hlow
  have hfold : ∀ ds : List ℕ, (∀ d ∈ ds, d < base) →
      ds.foldr (fun d n => n * base + digit (hexDigit d)) 0 = Nat.ofDigits base ds := by
    intro ds hds
    induction ds with
    | nil => rfl
    | cons d ds ih =>
      obtain ⟨hd,hds⟩ := List.forall_mem_cons.mp hds
      rw [List.foldr_cons,ih hds,(digit_hexDigit d (by omega)).1,Nat.ofDigits_cons]
      ring
  rw [hfold _ hdigits,Nat.ofDigits_digits]

theorem number_digits {base n : ℕ} (hlow : 1 < base) (hhigh : base ≤ 16) (h : n ≠ 0) :
    number base ((Nat.digits base n).reverse.map hexDigit) = some n := by
  have hne : (Nat.digits base n).reverse.map hexDigit ≠ [] := by
    simpa [Nat.digits_eq_nil_iff_eq_zero] using h
  have hdigits : ∀ b ∈ (Nat.digits base n).reverse.map hexDigit, digit b < base := by
    intro b hb
    obtain ⟨d,hd,rfl⟩ := List.mem_map.mp hb
    have hlt := Nat.digits_lt_base hlow (List.mem_reverse.mp hd)
    rw [(digit_hexDigit d (by omega)).1]
    exact hlt
  rw [number,if_pos ⟨hne,hdigits⟩,foldl_digits hlow hhigh]

theorem number_zero {base : ℕ} (h : 0 < base) : number base (ascii "0") = some 0 := by
  have hdigits : ∀ b ∈ ascii "0", digit b < base := by
    intro b hb
    obtain rfl : b = 48 := by simpa [ascii] using hb
    exact h
  rw [number,if_pos ⟨by simp [ascii],hdigits⟩]
  simp [ascii,digit]

theorem readLine_hexSize (n : ℕ) (tail : Bytes) :
    readLine (hexSize n ++ crlf ++ tail) = some (hexSize n,tail) := by
  refine readLine_append (fun h => ?_) tail
  obtain ⟨d,hd,hb⟩ := mem_hexSize h
  exact (digit_hexDigit d hd).2.1 hb

theorem takeWhile_hexSize (n : ℕ) : (hexSize n).takeWhile (fun b => b != 59) = hexSize n := by
  rw [List.takeWhile_eq_self_iff]
  intro b hb
  obtain ⟨d,hd,rfl⟩ := mem_hexSize hb
  simpa using (digit_hexDigit d hd).2.2

theorem readChunks_sizedChunk {chunk : Bytes} (h : chunk ≠ []) (fuel : ℕ) (tail : Bytes) :
    readChunks (fuel + 1) (sizedChunk chunk ++ tail) =
      (readChunks fuel tail).map fun p => (chunk ++ p.1,p.2) := by
  have hlen : chunk.length ≠ 0 := by simpa using h
  have hnumber : number 16 (hexSize chunk.length) = some chunk.length :=
    number_digits (by decide) le_rfl hlen
  have hbytes : sizedChunk chunk ++ tail = hexSize chunk.length ++ crlf ++ (chunk ++ crlf ++ tail) := by
    simp [sizedChunk]
  have hdrop : (chunk ++ crlf ++ tail).drop chunk.length = crlf ++ tail := by simp
  have hdrop2 : (chunk ++ crlf ++ tail).drop (chunk.length + 2) = tail := by
    rw [← List.drop_drop,hdrop]
    rfl
  have htake : (chunk ++ crlf ++ tail).take chunk.length = chunk := by simp
  have hpre : crlf.isPrefixOf (crlf ++ tail) = true := by
    rw [List.isPrefixOf_iff_prefix]
    exact List.prefix_append _ _
  rw [hbytes,readChunks,readLine_hexSize]
  simp only [Option.bind_eq_bind,Option.bind_some,takeWhile_hexSize,hnumber,hlen,if_false,
    hdrop,hdrop2,htake,hpre,if_true]

theorem readChunks_lastChunk (fuel : ℕ) (tail : Bytes) :
    readChunks (fuel + 1) (lastChunk ++ tail) = some ([],tail) := by
  have hline : readLine (lastChunk ++ tail) = some (ascii "0",crlf ++ tail) := by
    rw [lastChunk,List.append_assoc]
    exact readLine_append (by decide) (crlf ++ tail)
  have htrailers : readTrailers ((crlf ++ tail).length + 1) (crlf ++ tail) = some tail := rfl
  have hzero : number 16 ((ascii "0").takeWhile fun b => b != 59) = some 0 :=
    number_zero (by decide)
  rw [readChunks,hline]
  simp only [Option.bind_eq_bind,Option.bind_some,hzero,if_true,htrailers,Option.map_some]

/-- A chunked body is read back as it was. -/
theorem readChunks_flatMap {chunks : List Bytes} (h : ∀ chunk ∈ chunks, chunk ≠ []) {fuel : ℕ}
    (hfuel : chunks.length < fuel) (tail : Bytes) :
    readChunks fuel (chunks.flatMap sizedChunk ++ lastChunk ++ tail) =
      some (chunks.flatten,tail) := by
  induction chunks generalizing fuel with
  | nil =>
    obtain ⟨fuel,rfl⟩ : ∃ n, fuel = n + 1 := Nat.exists_eq_succ_of_ne_zero (by omega)
    exact readChunks_lastChunk fuel tail
  | cons chunk chunks ih =>
    obtain ⟨fuel,rfl⟩ : ∃ n, fuel = n + 1 := Nat.exists_eq_succ_of_ne_zero (by omega)
    obtain ⟨hchunk,hchunks⟩ := List.forall_mem_cons.mp h
    have hrest := ih hchunks (Nat.lt_of_succ_lt_succ hfuel)
    rw [List.flatMap_cons,List.append_assoc,List.append_assoc,readChunks_sizedChunk hchunk,
      ← List.append_assoc,hrest]
    rfl

theorem length_le_flatMap (chunks : List Bytes) :
    chunks.length ≤ (chunks.flatMap sizedChunk).length := by
  induction chunks with
  | nil => exact le_rfl
  | cons chunk chunks ih =>
    simp only [List.flatMap_cons,List.length_append,List.length_cons,sizedChunk,crlf]
    omega

end PerCoreShard
