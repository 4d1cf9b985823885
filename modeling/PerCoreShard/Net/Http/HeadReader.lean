import PerCoreShard.Net.Http.Native.Serializer
import PerCoreShard.Net.Http.Reader

/-! How a recipient reads a message head: the start line, one line for every field, and the
empty line. What the serializers write is read back as the head it was written for. -/
namespace PerCoreShard

/-- The bytes in front of the first separator, and those behind it. -/
def cut (separator : UInt8) : Bytes → Option (Bytes × Bytes)
  | [] => none
  | b::rest =>
    if b = separator then some ([],rest) else (cut separator rest).map fun p => (b::p.1,p.2)

/-- A field: its name, a colon, a blank, and its value. -/
def readField (line : Bytes) : Option Header := do
  let (name,rest) ← cut 58 line
  match rest with
  | 32::value => some ⟨name,value⟩
  | _ => none

/-- The fields up to the empty line, and the bytes behind it. -/
def readFields : ℕ → Bytes → Option (List Header × Bytes)
  | 0,_ => none
  | fuel+1,bytes => do
    let (line,rest) ← readLine bytes
    if line = [] then some ([],rest)
    else
      let field ← readField line
      let (fields,tail) ← readFields fuel rest
      some (field::fields,tail)

def readVersion (bytes : Bytes) : Option ℕ :=
  if bytes = ascii "HTTP/1.0" then some 10
  else if bytes = ascii "HTTP/1.1" then some 11
  else none

def readRequestHead (bytes : Bytes) : Option (RequestHead × Bytes) := do
  let (line,rest) ← readLine bytes
  let (method,line) ← cut 32 line
  let (target,line) ← cut 32 line
  let version ← readVersion line
  let (headers,tail) ← readFields (rest.length + 1) rest
  some ({ method, target, version, headers },tail)

def readResponseHead (bytes : Bytes) : Option (ResponseHead × Bytes) := do
  let (line,rest) ← readLine bytes
  let (version,line) ← cut 32 line
  let version ← readVersion version
  let (status,reason) ← cut 32 line
  let status ← number 10 status
  let (headers,tail) ← readFields (rest.length + 1) rest
  some ({ status, reason, version, headers },tail)

/-- There is no line break in it. -/
def OneLine (bytes : Bytes) : Prop := 13 ∉ bytes ∧ 10 ∉ bytes

instance (bytes : Bytes) : Decidable (OneLine bytes) := inferInstanceAs (Decidable (_ ∧ _))

/-- It can stand between two blanks. -/
structure Word (bytes : Bytes) : Prop where
  nonempty : bytes ≠ []
  unbroken : 32 ∉ bytes
  oneLine : OneLine bytes

structure Header.Plain (h : Header) : Prop where
  named : h.name ≠ []
  name : 58 ∉ h.name ∧ OneLine h.name
  value : OneLine h.value

structure RequestHead.Plain (head : RequestHead) : Prop where
  method : Word head.method
  target : Word head.target
  version : head.version = 10 ∨ head.version = 11
  headers : ∀ h ∈ head.headers, h.Plain

structure ResponseHead.Plain (head : ResponseHead) : Prop where
  reason : OneLine head.reason
  version : head.version = 10 ∨ head.version = 11
  headers : ∀ h ∈ head.headers, h.Plain

theorem cut_append {separator : UInt8} {front : Bytes} (h : separator ∉ front) (back : Bytes) :
    cut separator (front ++ separator::back) = some (front,back) := by
  induction front with
  | nil => simp [cut]
  | cons b front ih =>
    rw [List.mem_cons,not_or] at h
    rw [List.cons_append,cut,if_neg (Ne.symm h.1),ih h.2]
    rfl

theorem Header.Plain.line_ne_nil {h : Header} (hp : h.Plain) : h.name ++ ascii ": " ++ h.value ≠ [] := by
  simp [hp.named]

theorem Header.Plain.oneLine {h : Header} (hp : h.Plain) :
    OneLine (h.name ++ ascii ": " ++ h.value) := by
  have hsep : ascii ": " = [58,32] := by decide
  constructor
  · simp [hsep,hp.name.2.1,hp.value.1]
  · simp [hsep,hp.name.2.2,hp.value.2]

theorem Header.Plain.readField {h : Header} (hp : h.Plain) :
    readField (h.name ++ ascii ": " ++ h.value) = some h := by
  have hsep : h.name ++ ascii ": " ++ h.value = h.name ++ 58::32::h.value := by
    rw [List.append_assoc]
    rfl
  rw [hsep,PerCoreShard.readField,cut_append hp.name.1]
  rfl

theorem readFields_headerLines {headers : List Header} (h : ∀ x ∈ headers, x.Plain) {fuel : ℕ}
    (hfuel : headers.length < fuel) (tail : Bytes) :
    readFields fuel (headerLines headers ++ crlf ++ tail) = some (headers,tail) := by
  induction headers generalizing fuel with
  | nil =>
    obtain ⟨fuel,rfl⟩ : ∃ n, fuel = n + 1 := Nat.exists_eq_succ_of_ne_zero (by omega)
    rfl
  | cons x headers ih =>
    obtain ⟨fuel,rfl⟩ : ∃ n, fuel = n + 1 := Nat.exists_eq_succ_of_ne_zero (by omega)
    obtain ⟨hx,hrest⟩ := List.forall_mem_cons.mp h
    have hline : headerLines (x::headers) ++ crlf ++ tail =
        x.name ++ ascii ": " ++ x.value ++ crlf ++ (headerLines headers ++ crlf ++ tail) := by
      simp [headerLines]
    rw [hline,readFields,readLine_append hx.oneLine.1]
    simp only [Option.bind_eq_bind,Option.bind_some]
    rw [if_neg hx.line_ne_nil,hx.readField,Option.bind_some,
      ih hrest (Nat.lt_of_succ_lt_succ hfuel)]
    rfl

theorem length_le_headerLines (headers : List Header) :
    headers.length ≤ (headerLines headers).length := by
  induction headers with
  | nil => exact le_rfl
  | cons x headers ih =>
    simp only [headerLines,List.flatMap_cons,List.length_append,List.length_cons,crlf] at ih ⊢
    omega

def versionText (version : ℕ) : Bytes :=
  if version = 10 then ascii "HTTP/1.0" else ascii "HTTP/1.1"

theorem readVersion_text {version : ℕ} (h : version = 10 ∨ version = 11) :
    readVersion (versionText version) = some version := by
  rcases h with rfl | rfl <;> rfl

theorem versionText_cases (version : ℕ) :
    versionText version = ascii "HTTP/1.0" ∨ versionText version = ascii "HTTP/1.1" := by
  unfold versionText
  split
  · exact .inl rfl
  · exact .inr rfl

theorem oneLine_versionText (version : ℕ) : OneLine (versionText version) := by
  rcases versionText_cases version with h | h <;> rw [h] <;> decide

theorem unbroken_versionText (version : ℕ) : 32 ∉ versionText version := by
  rcases versionText_cases version with h | h <;> rw [h] <;> decide

theorem number_decimal (n : ℕ) : number 10 (decimal n) = some n := by
  unfold decimal
  split
  next h => rw [h,number_zero (by decide)]
  next h => exact number_digits (by decide) (by decide) h

theorem digit_of_mem_decimal {n : ℕ} {b : UInt8} (h : b ∈ decimal n) : digit b < 10 := by
  have hn := number_decimal n
  unfold number at hn
  split at hn
  next hd => exact hd.2 b h
  next => cases hn

theorem not_mem_decimal {b : UInt8} (h : ¬digit b < 10) (n : ℕ) : b ∉ decimal n :=
  fun hb => h (digit_of_mem_decimal hb)

def RequestHead.startLine (head : RequestHead) : Bytes :=
  head.method ++ 32::(head.target ++ 32::versionText head.version)

def ResponseHead.startLine (head : ResponseHead) : Bytes :=
  versionText head.version ++ 32::(decimal head.status ++ 32::head.reason)

theorem RequestHead.bytes_eq (head : RequestHead) :
    head.bytes = head.startLine ++ crlf ++ headerLines head.headers ++ crlf := by
  have hblank : ascii " " = [32] := by decide
  simp [RequestHead.bytes,startLine,versionText,hblank]

theorem ResponseHead.bytes_eq (head : ResponseHead) :
    head.bytes = head.startLine ++ crlf ++ headerLines head.headers ++ crlf := by
  have hblank : ascii " " = [32] := by decide
  have hversion : (if head.version = 10 then ascii "HTTP/1.0 " else ascii "HTTP/1.1 ") =
      versionText head.version ++ [32] := by
    unfold versionText
    split <;> decide
  simp [ResponseHead.bytes,startLine,hversion,hblank]

theorem oneLine_append {front back : Bytes} (hf : OneLine front) (hb : OneLine back) :
    OneLine (front ++ back) := by
  constructor
  · simp [hf.1,hb.1]
  · simp [hf.2,hb.2]

theorem oneLine_blank {back : Bytes} (hb : OneLine back) : OneLine (32::back) := by
  constructor
  · simp [hb.1]
  · simp [hb.2]

theorem RequestHead.Plain.oneLine {head : RequestHead} (h : head.Plain) :
    OneLine head.startLine :=
  oneLine_append h.method.oneLine (oneLine_blank (oneLine_append h.target.oneLine
    (oneLine_blank (oneLine_versionText _))))

theorem ResponseHead.Plain.oneLine {head : ResponseHead} (h : head.Plain) :
    OneLine head.startLine := by
  have hstatus : OneLine (decimal head.status) :=
    ⟨not_mem_decimal (by decide) _,not_mem_decimal (by decide) _⟩
  exact oneLine_append (oneLine_versionText _) (oneLine_blank (oneLine_append hstatus
    (oneLine_blank h.reason)))

theorem RequestHead.Plain.read {head : RequestHead} (h : head.Plain) (tail : Bytes) :
    readRequestHead (head.bytes ++ tail) = some (head,tail) := by
  have hbytes : head.bytes ++ tail =
      head.startLine ++ crlf ++ (headerLines head.headers ++ crlf ++ tail) := by
    simp [head.bytes_eq]
  have hfuel := length_le_headerLines head.headers
  rw [hbytes,readRequestHead,readLine_append h.oneLine.1]
  simp only [Option.bind_eq_bind,Option.bind_some]
  rw [startLine,cut_append h.method.unbroken,Option.bind_some,cut_append h.target.unbroken,
    Option.bind_some,readVersion_text h.version,Option.bind_some,
    readFields_headerLines h.headers (by simp only [List.length_append]; omega)]
  rfl

theorem ResponseHead.Plain.read {head : ResponseHead} (h : head.Plain) (tail : Bytes) :
    readResponseHead (head.bytes ++ tail) = some (head,tail) := by
  have hbytes : head.bytes ++ tail =
      head.startLine ++ crlf ++ (headerLines head.headers ++ crlf ++ tail) := by
    simp [head.bytes_eq]
  have hfuel := length_le_headerLines head.headers
  rw [hbytes,readResponseHead,readLine_append h.oneLine.1]
  simp only [Option.bind_eq_bind,Option.bind_some]
  rw [startLine,cut_append (unbroken_versionText _),Option.bind_some,readVersion_text h.version,
    Option.bind_some,cut_append (not_mem_decimal (by decide) _),Option.bind_some,number_decimal,
    Option.bind_some,readFields_headerLines h.headers (by simp only [List.length_append]; omega)]
  rfl

/-- The first empty line is the one behind the lines. -/
theorem boundary_of_lines {lines : List Bytes} (h : ∀ l ∈ lines, l ≠ [] ∧ 13 ∉ l) {tail : Bytes}
    {n : ℕ} (hn : crlf ++ crlf <+: (lines.flatMap (· ++ crlf) ++ crlf ++ tail).drop n) :
    (lines.flatMap (· ++ crlf)).length ≤ n + 2 := by
  induction lines generalizing n with
  | nil => exact Nat.zero_le _
  | cons line lines ih =>
    obtain ⟨⟨-,hline⟩,hlines⟩ := List.forall_mem_cons.mp h
    have hbytes : (line::lines).flatMap (· ++ crlf) ++ crlf ++ tail =
        line ++ 13::10::(lines.flatMap (· ++ crlf) ++ crlf ++ tail) := by
      simp [crlf]
    have hlen : ((line::lines).flatMap (· ++ crlf)).length =
        line.length + 2 + (lines.flatMap (· ++ crlf)).length := by
      simp only [List.flatMap_cons,List.length_append]
      rfl
    rw [hbytes] at hn
    rw [hlen]
    rcases Nat.lt_or_ge n line.length with hlt | hge
    · -- it would start inside the line
      rw [List.drop_append_of_le_length hlt.le,List.drop_eq_getElem_cons hlt] at hn
      obtain ⟨hfirst,-⟩ := List.cons_prefix_cons.mp hn
      exact absurd (hfirst ▸ List.getElem_mem hlt) hline
    · obtain ⟨k,rfl⟩ := Nat.exists_eq_add_of_le hge
      rw [List.drop_append] at hn
      simp only [Nat.add_sub_cancel_left,List.drop_eq_nil_of_le hge,List.nil_append] at hn
      rcases k with _ | _ | k
      · cases lines with
        | nil => simp
        | cons next lines =>
          -- another line follows, and it is not empty
          obtain ⟨⟨hne,hnext⟩,-⟩ := List.forall_mem_cons.mp hlines
          obtain ⟨b,rest,rfl⟩ := List.exists_cons_of_ne_nil hne
          have hb : (13 : UInt8) = b := by
            obtain ⟨more,hmore⟩ := hn
            simp [crlf] at hmore
            exact hmore.1
          exact absurd (hb ▸ List.mem_cons_self) hnext
      · obtain ⟨more,hmore⟩ := hn
        simp [crlf] at hmore
      · have hrest := ih hlines (n := k) (by simpa using hn)
        omega

theorem headerLines_eq (headers : List Header) : headerLines headers =
    (headers.map fun h => h.name ++ ascii ": " ++ h.value).flatMap (· ++ crlf) := by
  rw [headerLines,List.flatMap_map]

theorem boundary_of_head {line : Bytes} (hne : line ≠ []) (hline : OneLine line)
    {headers : List Header} (h : ∀ x ∈ headers, x.Plain) {tail : Bytes} {n : ℕ}
    (hn : crlf ++ crlf <+: (line ++ crlf ++ headerLines headers ++ crlf ++ tail).drop n) :
    (line ++ crlf ++ headerLines headers ++ crlf).length ≤ n + 4 := by
  have hlines : ∀ l ∈ line::headers.map fun h => h.name ++ ascii ": " ++ h.value,
      l ≠ [] ∧ 13 ∉ l := by
    rw [List.forall_mem_cons,List.forall_mem_map]
    exact ⟨⟨hne,hline.1⟩,fun x hx => ⟨(h x hx).line_ne_nil,(h x hx).oneLine.1⟩⟩
  have hn' : crlf ++ crlf <+: ((line::headers.map fun h => h.name ++ ascii ": " ++ h.value).flatMap
      (· ++ crlf) ++ crlf ++ tail).drop n := by
    simpa [headerLines_eq] using hn
  have hbound := boundary_of_lines hlines hn'
  rw [List.flatMap_cons,← headerLines_eq] at hbound
  rw [List.length_append]
  have : crlf.length = 2 := rfl
  omega

/-- The heads that meet `Plain` can be told from the bytes they are written as, and the bytes
from what follows them. -/
structure UniquelyDecodable {H : Type} (Plain : H → Prop) (bytes : H → Bytes)
    (read : Bytes → Option (H × Bytes)) : Prop where
  reads : ∀ head, Plain head → ∀ tail, read (bytes head ++ tail) = some (head,tail)
  ends : ∀ head, Plain head → crlf ++ crlf <:+ bytes head
  boundary : ∀ head, Plain head → ∀ tail n, crlf ++ crlf <+: (bytes head ++ tail).drop n →
    (bytes head).length ≤ n + 4
  injective : ∀ head head', Plain head → Plain head' → bytes head = bytes head' → head = head'

theorem injective_of_reads {H : Type} {Plain : H → Prop} {bytes : H → Bytes}
    {read : Bytes → Option (H × Bytes)}
    (h : ∀ head, Plain head → ∀ tail, read (bytes head ++ tail) = some (head,tail))
    (head head' : H) (hp : Plain head) (hp' : Plain head') (heq : bytes head = bytes head') :
    head = head' := by
  have hread := h head hp []
  rw [heq,h head' hp' []] at hread
  exact (congrArg Prod.fst (Option.some.inj hread)).symm

theorem ends_of_head (line : Bytes) (headers : List Header) :
    crlf ++ crlf <:+ line ++ crlf ++ headerLines headers ++ crlf := by
  rw [headerLines_eq]
  cases hlast : (headers.map fun h => h.name ++ ascii ": " ++ h.value) using List.reverseRecOn with
  | nil => exact ⟨line,by simp⟩
  | append_singleton init l =>
    exact ⟨line ++ crlf ++ init.flatMap (· ++ crlf) ++ l,by simp⟩

theorem heads_uniquely_decodable :
    UniquelyDecodable RequestHead.Plain RequestHead.bytes readRequestHead ∧
      UniquelyDecodable ResponseHead.Plain ResponseHead.bytes readResponseHead := by
  constructor
  · have hreads := fun (head : RequestHead) (h : head.Plain) => h.read
    refine ⟨hreads,fun head h => ?_,fun head h tail n hn => ?_,injective_of_reads hreads⟩
    · rw [head.bytes_eq]
      exact ends_of_head _ _
    · rw [head.bytes_eq] at hn ⊢
      exact boundary_of_head (by simp [RequestHead.startLine]) h.oneLine h.headers hn
  · have hreads := fun (head : ResponseHead) (h : head.Plain) => h.read
    refine ⟨hreads,fun head h => ?_,fun head h tail n hn => ?_,injective_of_reads hreads⟩
    · rw [head.bytes_eq]
      exact ends_of_head _ _
    · rw [head.bytes_eq] at hn ⊢
      exact boundary_of_head (by simp [ResponseHead.startLine]) h.oneLine h.headers hn

end PerCoreShard
