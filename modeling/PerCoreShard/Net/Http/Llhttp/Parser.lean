import PerCoreShard.Net.Http.Llhttp.Engine

/-! The adapters `LlhttpRequestParser` and `LlhttpResponseParser`. They share all members and
callbacks; the head they assemble is the only difference. -/
namespace PerCoreShard
open Library

/-- How the callbacks of one parser type fill the head it assembles. -/
class ParsedHead (H : Type) where
  /-- `head_ = H{}` in `on_message_begin`. -/
  fresh : H
  onUrl : H → Bytes → H
  onStatus : H → Bytes → H
  pushHeader : H → Header → H
  onHeadersComplete : H → StartLine → H

def StartLine.version (line : StartLine) : ℕ :=
  if line.httpMajor = 1 ∧ line.httpMinor = 0 then 10 else 11

/-- `on_status` is not registered for requests. -/
instance : ParsedHead RequestHead where
  fresh := {}
  onUrl head span := { head with target := head.target ++ span }
  onStatus head _ := head
  pushHeader head h := { head with headers := head.headers ++ [h] }
  onHeadersComplete head line := { head with method := line.method, version := line.version }

/-- `on_url` is not registered for responses. -/
instance : ParsedHead ResponseHead where
  fresh := {}
  onUrl head _ := head
  onStatus head span := { head with reason := head.reason ++ span }
  pushHeader head h := { head with headers := head.headers ++ [h] }
  onHeadersComplete head line := { head with status := line.statusCode, version := line.version }

structure LlhttpParser (ll : Llhttp) (H : Type) where
  parser : ll.State
  headerDone : Bool := false
  messageDone : Bool := false
  head : H
  pendingField : Bytes := []
  pendingValue : Bytes := []
  scratch : Bytes := []
  hasError : Bool := false
  cachedKeepAlive : Bool := false

namespace LlhttpParser
variable {ll : Llhttp} {H : Type} [ParsedHead H]

/-- `create_request_parser` and `create_response_parser`. -/
def create (ll : Llhttp) (H : Type) [ParsedHead H] : LlhttpParser ll H where
  parser := ll.start
  head := ParsedHead.fresh

/-- The callbacks the adapter registers with llhttp. -/
def dispatch (p : LlhttpParser ll H) : Callback → LlhttpParser ll H
  | .onMessageBegin =>
    { p with head := ParsedHead.fresh, pendingField := [], pendingValue := [],
             headerDone := false, messageDone := false }
  | .onUrl span => { p with head := ParsedHead.onUrl p.head span }
  | .onStatus span => { p with head := ParsedHead.onStatus p.head span }
  | .onHeaderField span => { p with pendingField := p.pendingField ++ span }
  | .onHeaderFieldComplete => p
  | .onHeaderValue span => { p with pendingValue := p.pendingValue ++ span }
  | .onHeaderValueComplete =>
    { p with head := ParsedHead.pushHeader p.head ⟨p.pendingField,p.pendingValue⟩,
             pendingField := [], pendingValue := [] }
  | .onHeadersComplete line =>
    { p with head := ParsedHead.onHeadersComplete p.head line, headerDone := true }
  | .onBody span => { p with scratch := p.scratch ++ span }
  | .onMessageComplete shouldKeepAlive =>
    { p with cachedKeepAlive := shouldKeepAlive, messageDone := true }

/-- Feed what was read; the first component is the number of bytes consumed. -/
def feed (p : LlhttpParser ll H) (raw : Bytes) : ℕ × LlhttpParser ll H :=
  if p.hasError || p.messageDone then (0,p)
  else
    let r := ll.execute p.parser raw
    let q := { r.callbacks.foldl dispatch p with parser := r.state }
    match r.errno with
    | .ok => (raw.length,q)
    | .paused => (r.errorPos.getD 0,q)
    | .error => (r.errorPos.getD 0,{ q with hasError := true })

/-- Take up to `size` bytes out of the body scratch. -/
def readBody (p : LlhttpParser ll H) (size : ℕ) : Bytes × LlhttpParser ll H :=
  (p.scratch.take size,{ p with scratch := p.scratch.drop size })

def shouldKeepAlive (p : LlhttpParser ll H) : Bool :=
  if p.messageDone then p.cachedKeepAlive else ll.shouldKeepAlive p.parser

end LlhttpParser

abbrev LlhttpRequestParser (ll : Llhttp) := LlhttpParser ll RequestHead
abbrev LlhttpResponseParser (ll : Llhttp) := LlhttpParser ll ResponseHead

end PerCoreShard
