import PerCoreShard.Net.Http.Framing
import PerCoreShard.Net.Http.Llhttp.Segmentation
import PerCoreShard.Net.Http.Number

/-! An instance of `Llhttp` that can be run: messages are read line by line and take the
decisions of `http.c` in its default mode about lengths, connections and message ends. A line
that is wrong raises the error behind its last byte. Folded fields, the status 101 and the
method CONNECT are refused; an `Upgrade` field means nothing. -/
namespace PerCoreShard
open Library
namespace Strict

inductive MessageType
  | request
  | response
  deriving DecidableEq, Repr

/-- The start line and what the fields have said so far. -/
structure Message where
  line : StartLine
  contentLength : Option ℕ := none
  transferEncoding : Bool := false
  chunked : Bool := false
  connectionClose : Bool := false
  connectionKeepAlive : Bool := false
  deriving DecidableEq, Repr

/-- What the line that is being read is. -/
inductive Part
  | startLine
  | field
  | chunkSize
  | chunkEnd
  | trailer
  deriving DecidableEq, Repr

inductive State
  | start
  | closed
  | line (part : Part) (m : Message) (read : Bytes)
  | identity (m : Message) (left : ℕ)
  | chunk (m : Message) (left : ℕ)
  | untilEof (m : Message)
  deriving DecidableEq, Repr

/-- What comes before and after the first occurrence of a byte. -/
def cut (b : UInt8) (bytes : Bytes) : Option (Bytes × Bytes) :=
  match bytes.dropWhile fun c => c != b with
  | [] => none
  | _::rest => some (bytes.takeWhile fun c => c != b,rest)

def minorVersion (bytes : Bytes) : Option ℕ :=
  if bytes = ascii "HTTP/1.1" then some 1 else if bytes = ascii "HTTP/1.0" then some 0 else none

/-- A request line with its target, or a status line with its reason. A request line without
a version is one of HTTP/0.9. -/
def startLine (type : MessageType) (bytes : Bytes) : Option (StartLine × Callback) := do
  let (first,rest) ← cut 32 bytes
  match type with
  | .request =>
    match cut 32 rest with
    | some (target,version) =>
      let minor ← minorVersion version
      some (⟨first,1,minor,0⟩,.onUrl target)
    | none => if rest = [] then none else some (⟨first,0,9,0⟩,.onUrl rest)
  | .response =>
    let minor ← minorVersion first
    let (code,reason) ← cut 32 rest
    let status ← number 10 code
    if code.length = 3 then some (⟨[],1,minor,status⟩,.onStatus reason) else none

def isChunked (coding : Bytes) : Bool := iequals (lastCoding coding) (ascii "chunked")

/-- In a request nothing may follow the coding `chunked`. -/
def codedOnce (type : MessageType) (m : Message) (value : Bytes) : Bool :=
  type = .response || !(m.chunked || (value.splitOn 44).dropLast.any isChunked)

/-- A `Connection` field lists the given option. -/
def lists (value option : Bytes) : Bool :=
  (value.splitOn 44).any fun token => iequals ((token.dropWhile isBlank).rdropWhile isBlank) option

/-- Take a field into account; two length fields contradict each other. -/
def Message.note (type : MessageType) (m : Message) (name value : Bytes) : Option Message :=
  if iequals name (ascii "Content-Length") then
    if m.contentLength.isSome || m.transferEncoding then none
    else
      match number 10 (value.rdropWhile fun b => b == 32) with
      | some n => if n < 2 ^ 64 then some { m with contentLength := some n } else none
      | none => none
  else if iequals name (ascii "Transfer-Encoding") then
    if m.contentLength.isSome || !codedOnce type m value then none
    else some { m with transferEncoding := true, chunked := isChunked value }
  else if iequals name (ascii "Connection") then
    some { m with
      connectionClose := m.connectionClose || lists value (ascii "close")
      connectionKeepAlive := m.connectionKeepAlive || lists value (ascii "keep-alive") }
  else some m

def field (bytes : Bytes) : Option (Bytes × Bytes) :=
  (cut 58 bytes).map fun p => (p.1,p.2.dropWhile isBlank)

/-- `llhttp_message_needs_eof`. -/
def Message.needsEof (type : MessageType) (m : Message) : Bool :=
  if type = .request then false
  else if m.line.statusCode / 100 = 1 ∨ m.line.statusCode = 204 ∨ m.line.statusCode = 304 then false
  else if m.transferEncoding && !m.chunked then true
  else !(m.chunked || m.contentLength.isSome)

/-- `llhttp_should_keep_alive`. -/
def Message.shouldKeepAlive (type : MessageType) (m : Message) : Bool :=
  (if 0 < m.line.httpMajor ∧ 0 < m.line.httpMinor then !m.connectionClose
    else m.connectionKeepAlive) && !m.needsEof type

/-- The end of a message: `llhttp__after_message_complete`. -/
def complete (type : MessageType) (m : Message) (out : List Callback) : Reaction State Callback :=
  .next (out ++ [.onMessageComplete (m.shouldKeepAlive type)])
    (if m.shouldKeepAlive type then .start else .closed)

/-- `llhttp__after_headers_complete`. -/
def afterHeaders (type : MessageType) (m : Message) : Reaction State Callback :=
  let out := [.onHeadersComplete m.line]
  if m.line.statusCode = 101 ∨ m.line.method = ascii "CONNECT" then .fail out .closed
  else if type = .response ∧ m.line.statusCode ∈ [100,102,103,204,304] then complete type m out
  else if m.chunked then .next out (.line .chunkSize m [])
  else if m.transferEncoding then
    if type = .request then .fail out .closed else .next out (.untilEof m)
  else
    match m.contentLength with
    | none => if m.needsEof type then .next out (.untilEof m) else complete type m out
    | some 0 => complete type m out
    | some n => .next out (.identity m n)

/-- The callbacks of one header field. -/
def fieldCallbacks (name value : Bytes) : List Callback :=
  [.onHeaderField name,.onHeaderFieldComplete,.onHeaderValue value,.onHeaderValueComplete]

/-- The reaction to a line that is complete. -/
def endLine (type : MessageType) (part : Part) (m : Message) (bytes : Bytes) :
    Reaction State Callback :=
  match part with
  | .startLine =>
    match startLine type bytes with
    | some (line,out) => .next [out] (.line .field ⟨line,none,false,false,false,false⟩ [])
    | none => .fail [] .closed
  | .field =>
    if bytes = [] then afterHeaders type m
    else
      match field bytes with
      | some (name,value) =>
        match m.note type name value with
        | some m' => .next (fieldCallbacks name value) (.line .field m' [])
        | none => .fail [] .closed
      | none => .fail [] .closed
  | .chunkSize =>
    match number 16 bytes with
    | some 0 => .next [] (.line .trailer m [])
    | some n => .next [] (.chunk m n)
    | none => .fail [] .closed
  | .chunkEnd => if bytes = [] then .next [] (.line .chunkSize m []) else .fail [] .closed
  | .trailer =>
    if bytes = [] then complete type m []
    else
      match field bytes with
      | some (name,value) => .next (fieldCallbacks name value) (.line .trailer m [])
      | none => .fail [] .closed

def react (type : MessageType) : State → UInt8 → Reaction State Callback
  | .start,b =>
    if b = 13 ∨ b = 10 then .next [] .start
    else .next [.onMessageBegin] (.line .startLine ⟨⟨[],1,1,0⟩,none,false,false,false,false⟩ [b])
  | .closed,b => if b = 13 ∨ b = 10 then .next [] .closed else .fail [] .closed
  | .line part m read,b =>
    if b = 10 then
      if read.getLast? = some 13 then endLine type part m read.dropLast else .fail [] .closed
    else .next [] (.line part m (read ++ [b]))
  | .identity m left,b =>
    if left ≤ 1 then complete type m [.onBody [b]] else .next [.onBody [b]] (.identity m (left - 1))
  | .chunk m left,b =>
    .next [.onBody [b]] (if left ≤ 1 then .line .chunkEnd m [] else .chunk m (left - 1))
  | .untilEof m,b => .next [.onBody [b]] (.untilEof m)

def automaton (type : MessageType) : Transducer UInt8 Callback where
  State := State
  start := .start
  react := react type

theorem run_next {type : MessageType} {s s' : State} {b : UInt8} {out : List Callback}
    (h : react type s b = .next out s') : (automaton type).run s [b] = ⟨out,s',false⟩ := by
  have hr : (automaton type).react s b = .next out s' := h
  simp [Transducer.run,hr]

theorem run_fail {type : MessageType} {s s' : State} {b : UInt8} {out : List Callback}
    (h : react type s b = .fail out s') : (automaton type).run s [b] = ⟨out,s',true⟩ := by
  have hr : (automaton type).react s b = .fail out s' := h
  simp [Transducer.run,hr]

/-- The part of a message a state is in. -/
def State.place : State → Section
  | .start | .closed => .idle
  | .line .startLine _ _ | .line .field _ _ => .head
  | _ => .body

/-- The output of a reaction takes the part of the message before it to the part after it. -/
def Orderly (s : State) : Reaction State Callback → Prop
  | .next out s' => s.place.follow out = some s'.place
  | .fail out _ => (s.place.follow out).isSome = true

theorem complete_orderly (type : MessageType) (m : Message) {s : State} {out : List Callback}
    (h : s.place.follow out = some .body) : Orderly s (complete type m out) := by
  simp only [Orderly,complete,Section.follow_append,h]
  split <;> rfl

theorem afterHeaders_orderly (type : MessageType) (m n : Message) (read : Bytes) :
    Orderly (.line .field n read) (afterHeaders type m) := by
  have h : (State.line .field n read).place.follow [.onHeadersComplete m.line] = some .body := rfl
  have hdone := complete_orderly type m h
  unfold afterHeaders
  dsimp only
  split
  · rfl
  · split
    · exact hdone
    · split
      · rfl
      · split
        · split <;> rfl
        · split
          · split
            · rfl
            · exact hdone
          · exact hdone
          · rfl

theorem startLine_callback {type : MessageType} {bytes : Bytes} {line : StartLine} {c : Callback}
    (h : startLine type bytes = some (line,c)) :
    (∃ target, c = .onUrl target) ∨ ∃ reason, c = .onStatus reason := by
  simp only [startLine,Option.bind_eq_bind,Option.bind_eq_some_iff,Prod.exists] at h
  obtain ⟨first,rest,-,h⟩ := h
  cases type with
  | request =>
    dsimp only at h
    split at h
    · simp only [Option.bind_eq_some_iff,Option.some.injEq,Prod.mk.injEq] at h
      obtain ⟨_,_,_,rfl⟩ := h
      exact .inl ⟨_,rfl⟩
    · simp only [Option.ite_none_left_eq_some,Option.some.injEq,Prod.mk.injEq] at h
      obtain ⟨-,-,rfl⟩ := h
      exact .inl ⟨_,rfl⟩
  | response =>
    simp only [Option.bind_eq_some_iff,Prod.exists,Option.ite_none_right_eq_some,
      Option.some.injEq,Prod.mk.injEq] at h
    obtain ⟨_,_,_,_,_,_,_,_,_,rfl⟩ := h
    exact .inr ⟨_,rfl⟩

theorem endLine_orderly (type : MessageType) (part : Part) (m : Message) (read bytes : Bytes) :
    Orderly (.line part m read) (endLine type part m bytes) := by
  unfold endLine
  cases part with
  | startLine =>
    dsimp only
    split
    next line out h =>
      obtain ⟨_,rfl⟩ | ⟨_,rfl⟩ := startLine_callback h <;> rfl
    · rfl
  | field =>
    dsimp only
    split_ifs
    · exact afterHeaders_orderly type m m read
    · split
      · split <;> rfl
      · rfl
  | chunkSize => dsimp only; split <;> rfl
  | chunkEnd => dsimp only; split_ifs <;> rfl
  | trailer =>
    dsimp only
    split_ifs
    · exact complete_orderly type m rfl
    · split <;> rfl

theorem react_orderly (type : MessageType) (s : State) (b : UInt8) : Orderly s (react type s b) := by
  cases s with
  | start =>
    change Orderly .start (if b = 13 ∨ b = 10 then _ else _)
    split <;> rfl
  | closed =>
    change Orderly .closed (if b = 13 ∨ b = 10 then _ else _)
    split <;> rfl
  | line part m read =>
    change Orderly _ (if b = 10 then if read.getLast? = some 13 then _ else _ else _)
    split
    · split
      · exact endLine_orderly type part m read _
      · cases part <;> rfl
    · cases part <;> rfl
  | identity m left =>
    change Orderly _ (if left ≤ 1 then _ else _)
    split
    · exact complete_orderly type m rfl
    · rfl
  | chunk m left =>
    change some Section.body = some (State.place (if left ≤ 1 then _ else _))
    split <;> rfl
  | untilEof m => rfl

theorem run_orderly (type : MessageType) (raw : Bytes) (s : State) :
    (s.place.follow ((automaton type).run s raw).out).isSome = true := by
  induction raw generalizing s with
  | nil => rfl
  | cons b raw ih =>
    have h := react_orderly type s b
    simp only [Transducer.run]
    change Orderly s ((automaton type).react s b) at h
    cases hr : (automaton type).react s b with
    | next out s' =>
      rw [hr] at h
      simp only [Section.follow_append,show s.place.follow out = some s'.place from h]
      exact ih s'
    | fail out s' =>
      rw [hr] at h
      exact h

/-- The number of bytes up to and with the one that raises an error. -/
def errorEnd (type : MessageType) : State → Bytes → ℕ
  | _,[] => 0
  | s,b::raw =>
    match react type s b with
    | .next _ s' => errorEnd type s' raw + 1
    | .fail _ _ => 1

theorem errorEnd_le (type : MessageType) (s : State) (raw : Bytes) :
    errorEnd type s raw ≤ raw.length := by
  induction raw generalizing s with
  | nil => exact le_rfl
  | cons b raw ih =>
    unfold errorEnd
    split
    · exact Nat.succ_le_succ (ih _)
    · simp

def State.shouldKeepAlive (type : MessageType) : State → Bool
  | .start => true
  | .closed => false
  | .line _ m _ | .identity m _ | .chunk m _ | .untilEof m => m.shouldKeepAlive type

end Strict

/-- The automaton as an instance of the interface. -/
def Llhttp.strict (type : Strict.MessageType) : Llhttp where
  toTransducer := Strict.automaton type
  shouldKeepAlive := Strict.State.shouldKeepAlive type
  errorPos s raw := some (Strict.errorEnd type s raw)
  errorPos_le s raw p h := by
    rw [← Option.some.inj h]
    exact Strict.errorEnd_le type s raw
  ordered raw := Strict.run_orderly type raw .start

end PerCoreShard
