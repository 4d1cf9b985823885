import PerCoreShard.Net.Http.Llhttp.Lengths
import PerCoreShard.Net.Http.Llhttp.Strict

/-! The automaton that can be run goes by the length rules: what it keeps of the fields agrees
with the head an adapter assembles, and its states read a body as their names say. -/
namespace PerCoreShard
open Library LlhttpParser

namespace Strict

/-- What a message keeps of its fields. -/
structure Reflects (m : Message) (headers : List Header) : Prop where
  transferEncoding : headers.any isTransferEncoding = m.transferEncoding
  chunked : finallyChunked headers = m.chunked
  unsized : m.contentLength = none → headers.any isContentLength = false
  sized : ∀ n, m.contentLength = some n → headers.any isContentLength = true ∧
    contentLength headers = some n ∧ headers.any isTransferEncoding = false

theorem reflects_nil (line : StartLine) : Reflects ⟨line,none,false,false,false,false⟩ [] :=
  ⟨rfl,rfl,fun _ => rfl,fun n hn => (by cases hn)⟩

theorem isTransferEncoding_of_contentLength {h : Header} (hc : isContentLength h = true) :
    isTransferEncoding h = false := by
  rw [isContentLength,iequals_iff] at hc
  rw [isTransferEncoding,Bool.eq_false_iff,ne_eq,iequals_iff,hc]
  decide

namespace Reflects
variable {m : Message} {headers : List Header} {h : Header}

theorem length (hm : Reflects m headers) (hc : isContentLength h = true)
    (hnone : m.contentLength = none) (hte : m.transferEncoding = false) {n : ℕ}
    (hn : number 10 (h.value.rdropWhile fun b => b == 32) = some n) :
    Reflects { m with contentLength := some n } (headers ++ [h]) := by
  have ht := isTransferEncoding_of_contentLength hc
  have hfilter : headers.filter isContentLength = [] := by
    have hany := hm.unsized hnone
    rw [List.any_eq_false] at hany
    simpa [List.filter_eq_nil_iff] using hany
  refine ⟨?_,?_,fun hn => (by cases hn),?_⟩
  · simp [hm.transferEncoding,ht]
  · simp [← hm.chunked,finallyChunked,ht]
  · rintro _ ⟨rfl⟩
    refine ⟨by simp [hc],?_,by rw [List.any_append,hm.transferEncoding,hte]; simp [ht]⟩
    simp [contentLength,hfilter,hc,hn]

theorem coding (hm : Reflects m headers) (ht : isTransferEncoding h = true)
    (hnone : m.contentLength = none) :
    Reflects { m with transferEncoding := true, chunked := isChunked h.value } (headers ++ [h]) := by
  have hc : isContentLength h = false := by
    rw [Bool.eq_false_iff]
    intro hc
    rw [isTransferEncoding_of_contentLength hc] at ht
    cases ht
  refine ⟨by simp [ht],?_,fun _ => ?_,fun n hn => ?_⟩
  · simp [finallyChunked,ht,isChunked]
  · simp [hm.unsized hnone,hc]
  · rw [show m.contentLength = some n from hn] at hnone
    cases hnone

theorem other (hm : Reflects m headers) (hc : isContentLength h = false)
    (ht : isTransferEncoding h = false) : Reflects m (headers ++ [h]) := by
  refine ⟨?_,?_,fun hn => ?_,fun n hn => ?_⟩
  · simp [hm.transferEncoding,ht]
  · simp [← hm.chunked,finallyChunked,ht]
  · simp [hm.unsized hn,hc]
  · obtain ⟨hany,hlen,hte⟩ := hm.sized n hn
    refine ⟨by simp [hany],?_,by simp [hte,ht]⟩
    rw [← hlen]
    simp [contentLength,hc]

theorem note {type : MessageType} {m' : Message} (hm : Reflects m headers)
    (hnote : m.note type h.name h.value = some m') : Reflects m' (headers ++ [h]) := by
  unfold Message.note at hnote
  split at hnote
  next hc =>
    split at hnote
    next => cases hnote
    next hfirst =>
      rw [Bool.not_eq_true,Bool.or_eq_false_iff,Option.isSome_eq_false_iff,
        Option.isNone_iff_eq_none] at hfirst
      split at hnote
      next n hn =>
        split at hnote
        next =>
          obtain rfl := Option.some.inj hnote
          exact hm.length hc hfirst.1 hfirst.2 hn
        next => cases hnote
      next => cases hnote
  next hc =>
    split at hnote
    next ht =>
      split at hnote
      next => cases hnote
      next hfirst =>
        rw [Bool.not_eq_true,Bool.or_eq_false_iff,Option.isSome_eq_false_iff,
          Option.isNone_iff_eq_none] at hfirst
        obtain rfl := Option.some.inj hnote
        exact hm.coding ht hfirst.1
    next ht =>
      have hsame := hm.other (h := h) (Bool.eq_false_iff.mpr hc) (Bool.eq_false_iff.mpr ht)
      split at hnote
      · obtain rfl := Option.some.inj hnote
        exact { hsame with }
      · obtain rfl := Option.some.inj hnote
        exact hsame

end Reflects

section
variable {H : Type} [LawfulHead H] {type : MessageType}

/-- The adapter has assembled what the automaton keeps of the header block so far. -/
def Agrees (p : LlhttpParser (Llhttp.strict type) H) : State → Prop
  | .line .startLine _ _ =>
    LawfulHead.headers p.head = [] ∧ p.pendingField = [] ∧ p.pendingValue = []
  | .line .field m _ =>
    Reflects m (LawfulHead.headers p.head) ∧ p.pendingField = [] ∧ p.pendingValue = []
  | _ => True

theorem agrees_field {p : LlhttpParser (Llhttp.strict type) H} {m m' : Message} {name value : Bytes}
    {read : Bytes} (h : Agrees p (.line .field m read)) (hm : m.note type name value = some m') :
    Agrees ((fieldCallbacks name value).foldl dispatch p) (.line .field m' []) := by
  obtain ⟨hreflects,hname,hvalue⟩ := h
  have hnew := hreflects.note (h := ⟨name,value⟩) hm
  refine ⟨?_,rfl,rfl⟩
  simpa [fieldCallbacks,dispatch,hname,hvalue,LawfulHead.headers_pushHeader] using hnew

theorem place_complete {m : Message} {out out' : List Callback} {s : State}
    (h : complete type m out = .next out' s) : s.place = .idle := by
  simp only [complete,Reaction.next.injEq] at h
  obtain ⟨-,rfl⟩ := h
  split <;> rfl

theorem agrees_of_place {p : LlhttpParser (Llhttp.strict type) H} {s : State}
    (h : s.place ≠ .head) : Agrees p s := by
  cases s with
  | line part m read => cases part <;> trivial
  | _ => trivial

theorem place_afterHeaders {m : Message} {out : List Callback} {s : State}
    (h : afterHeaders type m = .next out s) : s.place ≠ .head := by
  have hdone : ∀ {out'}, complete type m out' = .next out s → s.place ≠ .head := fun hc => by
    rw [place_complete hc]
    decide
  unfold afterHeaders at h
  dsimp only at h
  split at h
  · cases h
  · split at h
    · exact hdone h
    · split at h
      · cases h
        nofun
      · split at h
        · split at h <;> cases h
          nofun
        · split at h
          · split at h
            · cases h
              nofun
            · exact hdone h
          · exact hdone h
          · cases h
            nofun

theorem agrees_endLine {p : LlhttpParser (Llhttp.strict type) H} {s' : State} {part : Part}
    {m : Message} {read bytes : Bytes} {out : List Callback} (h : Agrees p (.line part m read))
    (hr : endLine type part m bytes = .next out s') : Agrees (out.foldl dispatch p) s' := by
  unfold endLine at hr
  cases part with
  | startLine =>
    dsimp only at hr
    split at hr
    next line c hc =>
      cases hr
      obtain ⟨hheaders,hname,hvalue⟩ := h
      obtain ⟨_,rfl⟩ | ⟨_,rfl⟩ := startLine_callback hc
      · refine ⟨?_,hname,hvalue⟩
        change Reflects _ (LawfulHead.headers (ParsedHead.onUrl p.head _))
        rw [LawfulHead.headers_onUrl,hheaders]
        exact reflects_nil line
      · refine ⟨?_,hname,hvalue⟩
        change Reflects _ (LawfulHead.headers (ParsedHead.onStatus p.head _))
        rw [LawfulHead.headers_onStatus,hheaders]
        exact reflects_nil line
    next => cases hr
  | field =>
    dsimp only at hr
    split at hr
    next => exact agrees_of_place (place_afterHeaders hr)
    next =>
      split at hr
      next name value hfield =>
        split at hr
        next m' hm =>
          cases hr
          exact agrees_field h hm
        next => cases hr
      next => cases hr
  | chunkSize =>
    dsimp only at hr
    split at hr <;> cases hr <;> trivial
  | chunkEnd =>
    dsimp only at hr
    split at hr <;> cases hr
    trivial
  | trailer =>
    dsimp only at hr
    split at hr
    · refine agrees_of_place ?_
      rw [place_complete hr]
      decide
    · split at hr <;> cases hr
      trivial

theorem agrees_react {p : LlhttpParser (Llhttp.strict type) H} {s s' : State} {b : UInt8}
    {out : List Callback} (h : Agrees p s) (hr : react type s b = .next out s') :
    Agrees (out.foldl dispatch p) s' := by
  cases s with
  | start =>
    change (if b = 13 ∨ b = 10 then _ else _) = _ at hr
    split at hr <;> cases hr
    · trivial
    · exact ⟨LawfulHead.headers_fresh,rfl,rfl⟩
  | closed =>
    change (if b = 13 ∨ b = 10 then _ else _) = _ at hr
    split at hr <;> cases hr
    trivial
  | line part m read =>
    change (if b = 10 then if read.getLast? = some 13 then _ else _ else _) = _ at hr
    split at hr
    · split at hr
      · exact agrees_endLine h hr
      · cases hr
    · cases hr
      cases part <;> exact h
  | identity m left =>
    change (if left ≤ 1 then _ else _) = _ at hr
    split at hr
    · refine agrees_of_place ?_
      rw [place_complete hr]
      decide
    · cases hr
      trivial
  | chunk m left =>
    cases hr
    refine agrees_of_place ?_
    split <;> nofun
  | untilEof m =>
    cases hr
    trivial

/-- As long as the input is accepted the automaton and the adapter agree. -/
theorem agrees_parsed {input : Bytes} (h : ((automaton type).run .start input).failed = false) :
    Agrees (parsed (Llhttp.strict type) H input) ((automaton type).run .start input).state := by
  induction input using List.reverseRecOn with
  | nil => trivial
  | append_singleton input b ih =>
    have hbefore := (automaton type).prefix_not_failed (List.prefix_append input [b]) h
    have hrun := (automaton type).run_append_of_not_failed [b] hbefore
    have hparsed := @parsed_append_of_not_failed (Llhttp.strict type) H _ _ [b] hbefore
    cases hr : react type ((automaton type).run .start input).state b with
    | fail out s' =>
      rw [hrun,run_fail hr] at h
      cases h
    | next out s' =>
      have hstep := agrees_react (ih hbefore) hr
      rw [hrun,run_next hr,hparsed]
      have hout : ((Llhttp.strict type).execute (parsed (Llhttp.strict type) H input).parser
        [b]).callbacks = out := congrArg Outcome.out (run_next hr)
      rw [hout]
      revert hstep
      cases s' with
      | line part m read => cases part <;> exact id
      | _ => exact id

end

/-- How the automaton goes on behind a header block. -/
def Starts (type : MessageType) (m : Message) (out : List Callback) (s : State) :
    BodyFraming → Prop
  | .empty => out = [.onHeadersComplete m.line,.onMessageComplete (m.shouldKeepAlive type)]
  | .length n => 0 < n ∧ out = [.onHeadersComplete m.line] ∧ s = .identity m n
  | .chunked => out = [.onHeadersComplete m.line] ∧ s = .line .chunkSize m []
  | .untilClose => out = [.onHeadersComplete m.line] ∧ s = .untilEof m

theorem starts_complete {type : MessageType} {m : Message} {out : List Callback} {s : State}
    (h : complete type m [.onHeadersComplete m.line] = .next out s) :
    Starts type m out s .empty := by
  simp only [complete,Reaction.next.injEq] at h
  exact h.1.symm

namespace Reflects
variable {m : Message} {headers : List Header} (hm : Reflects m headers)
include hm

theorem not_chunked (h : m.transferEncoding = false) : m.chunked = false := by
  rw [Bool.eq_false_iff,← hm.chunked]
  intro hc
  have hany := any_of_hasChunkedEncoding (hasChunkedEncoding_of_finallyChunked hc)
  rw [hm.transferEncoding,h] at hany
  cases hany

theorem unsized_of_coded (h : m.transferEncoding = true) :
    headers.any isContentLength = false := by
  cases hl : m.contentLength with
  | none => exact hm.unsized hl
  | some n =>
    have hte := (hm.sized n hl).2.2
    rw [hm.transferEncoding,h] at hte
    cases hte

end Reflects

section
variable {m : Message} {out : List Callback} {s : State}

/-- Without codings the length decides, and there may be none. -/
theorem starts_length {type : MessageType} {n : ℕ}
    (h : (match n with
      | 0 => complete type m [.onHeadersComplete m.line]
      | n => .next [.onHeadersComplete m.line] (.identity m n)) = .next out s) :
    Starts type m out s (lengthFraming n) := by
  cases n with
  | zero => exact starts_complete h
  | succ n =>
    cases h
    exact ⟨n.succ_pos,rfl,rfl⟩

theorem starts_response {head : ResponseHead} (hm : Reflects m head.headers)
    (hs : head.status = m.line.statusCode) (h : afterHeaders .response m = .next out s) :
    ∃ framing, responseFraming head = some framing ∧ Starts .response m out s framing := by
  unfold afterHeaders at h
  dsimp only at h
  unfold responseFraming
  rw [hm.transferEncoding,hm.chunked]
  split at h
  next => cases h
  next hupgrade =>
    rw [not_or] at hupgrade
    split at h
    next hnone =>
      have hmem : head.status ∈ [100,101,102,103,204,304] := by
        have := hnone.2
        simp only [List.mem_cons,List.not_mem_nil,or_false] at this ⊢
        omega
      exact ⟨.empty,if_pos hmem,starts_complete h⟩
    next hnone =>
      have hmem : head.status ∉ [100,101,102,103,204,304] := by
        have h1 := hupgrade.1
        have h2 : m.line.statusCode ∉ [100,102,103,204,304] := fun hin => hnone ⟨rfl,hin⟩
        simp only [List.mem_cons,List.not_mem_nil,or_false,not_or] at h2 ⊢
        omega
      rw [if_neg hmem]
      cases hte : m.transferEncoding with
      | true =>
        rw [hte,if_pos rfl] at h
        rw [if_pos rfl,hm.unsized_of_coded hte,if_neg Bool.false_ne_true]
        split at h
        next hc =>
          cases h
          exact ⟨.chunked,if_pos hc,rfl,rfl⟩
        next hc =>
          cases h
          exact ⟨.untilClose,if_neg hc,rfl,rfl⟩
      | false =>
        rw [hm.not_chunked hte,hte,if_neg Bool.false_ne_true,if_neg Bool.false_ne_true] at h
        rw [if_neg Bool.false_ne_true]
        cases hl : m.contentLength with
        | none =>
          rw [hl] at h
          rw [hm.unsized hl,if_neg Bool.false_ne_true]
          have hneeds : m.needsEof .response = true ↔ ¬head.status / 100 = 1 := by
            simp only [List.mem_cons,List.not_mem_nil,or_false,not_or] at hmem
            rw [hs] at hmem ⊢
            simp [Message.needsEof,hm.not_chunked hte,hte,hl,hmem]
          dsimp only at h
          split at h
          next hn =>
            cases h
            exact ⟨.untilClose,if_neg (hneeds.mp hn),rfl,rfl⟩
          next hn =>
            rw [hneeds,not_not] at hn
            exact ⟨.empty,if_pos hn,starts_complete h⟩
        | some n =>
          rw [hl] at h
          obtain ⟨hany,hlen,-⟩ := hm.sized n hl
          rw [hany,if_pos rfl,hlen]
          refine ⟨_,rfl,starts_length (n := n) ?_⟩
          rw [← h]
          cases n <;> rfl

theorem starts_request {head : RequestHead} (hm : Reflects m head.headers)
    (hmethod : head.method = m.line.method) (h : afterHeaders .request m = .next out s) :
    ∃ framing, RequestRule head framing ∧ Starts .request m out s framing := by
  unfold afterHeaders at h
  dsimp only at h
  unfold RequestRule requestFraming
  rw [hm.transferEncoding,hm.chunked]
  split at h
  next => cases h
  next hupgrade =>
    rw [not_or,← hmethod] at hupgrade
    rw [if_neg (by simp)] at h
    simp only [hupgrade.2,if_false]
    cases hte : m.transferEncoding with
    | true =>
      rw [hte,if_pos rfl,if_pos rfl] at h
      rw [if_pos rfl,hm.unsized_of_coded hte]
      split at h
      next hc =>
        cases h
        exact ⟨.chunked,by simp [hc],rfl,rfl⟩
      next => cases h
    | false =>
      rw [hm.not_chunked hte,hte,if_neg Bool.false_ne_true,if_neg Bool.false_ne_true] at h
      rw [if_neg Bool.false_ne_true]
      cases hl : m.contentLength with
      | none =>
        rw [hl] at h
        rw [hm.unsized hl,if_neg Bool.false_ne_true]
        exact ⟨.empty,by simp,starts_complete h⟩
      | some n =>
        rw [hl] at h
        obtain ⟨hany,hlen,-⟩ := hm.sized n hl
        rw [hany,if_pos rfl,hlen]
        refine ⟨lengthFraming n,by simp,starts_length (n := n) ?_⟩
        rw [← h]
        cases n <;> rfl

end

/-- The body is reported byte by byte. -/
def spans (body : Bytes) : List Callback := body.map fun b => .onBody [b]

theorem bodyOf_spans (body : Bytes) : bodyOf (spans body) = body := by
  simp [spans,bodyOf,List.flatMap_map,Callback.body]

theorem inBody_spans (body : Bytes) : (spans body).all Callback.inBody = true := by
  simp [spans,Callback.inBody]

theorem ends_spans (body : Bytes) : (spans body).any Callback.ends = false := by
  simp [spans,Callback.ends]

section
variable {type : MessageType}

theorem run_cons {s s' : State} {b : UInt8} {out : List Callback}
    (h : react type s b = .next out s') (rest : Bytes) :
    (automaton type).run s (b::rest) = ⟨out ++ ((automaton type).run s' rest).out,
      ((automaton type).run s' rest).state,((automaton type).run s' rest).failed⟩ := by
  have hr : (automaton type).react s b = .next out s' := h
  simp only [Transducer.run,hr]

theorem run_then {s s' : State} {xs : Bytes} {out : List Callback}
    (h : (automaton type).run s xs = ⟨out,s',false⟩) (ys : Bytes) :
    (automaton type).run s (xs ++ ys) = ⟨out ++ ((automaton type).run s' ys).out,
      ((automaton type).run s' ys).state,((automaton type).run s' ys).failed⟩ := by
  have happend := (automaton type).run_append_of_not_failed ys (congrArg Outcome.failed h)
  rw [congrArg Outcome.out h,congrArg Outcome.state h] at happend
  exact happend

theorem run_untilEof (m : Message) (body : Bytes) :
    (automaton type).run (.untilEof m) body = ⟨spans body,.untilEof m,false⟩ := by
  induction body with
  | nil => rfl
  | cons b body ih =>
    have hr : react type (.untilEof m) b = .next [.onBody [b]] (.untilEof m) := rfl
    rw [run_cons hr,ih]
    rfl

theorem run_identity_lt (m : Message) {body : Bytes} {n : ℕ} (h : body.length < n) :
    (automaton type).run (.identity m n) body = ⟨spans body,.identity m (n - body.length),false⟩ := by
  induction body generalizing n with
  | nil => rfl
  | cons b body ih =>
    rw [List.length_cons] at h
    have hr : react type (.identity m n) b = .next [.onBody [b]] (.identity m (n - 1)) := by
      change (if n ≤ 1 then _ else _) = _
      rw [if_neg (by omega)]
    rw [run_cons hr,ih (by omega),List.length_cons,Nat.sub_sub,Nat.add_comm 1]
    rfl

theorem run_identity (m : Message) {body : Bytes} (h : body ≠ []) :
    ((automaton type).run (.identity m body.length) body).out =
      spans body ++ [.onMessageComplete (m.shouldKeepAlive type)] := by
  obtain ⟨init,b,rfl⟩ := List.eq_nil_or_concat body |>.resolve_left h
  rw [List.concat_eq_append]
  have hinit : (automaton type).run (.identity m (init ++ [b]).length) init =
      ⟨spans init,.identity m ((init ++ [b]).length - init.length),false⟩ :=
    run_identity_lt m (by simp)
  have hr : react type (.identity m ((init ++ [b]).length - init.length)) b =
      complete type m [.onBody [b]] := by
    change (if _ ≤ 1 then _ else _) = _
    rw [if_pos (by simp)]
  rw [run_then hinit,run_next hr]
  simp [spans]

theorem run_chunk (m : Message) {chunk : Bytes} (h : chunk ≠ []) :
    (automaton type).run (.chunk m chunk.length) chunk =
      ⟨spans chunk,.line .chunkEnd m [],false⟩ := by
  induction chunk with
  | nil => exact absurd rfl h
  | cons b chunk ih =>
    cases chunk with
    | nil => rfl
    | cons c chunk =>
      have hr : react type (.chunk m (b::c::chunk).length) b =
          .next [.onBody [b]] (.chunk m (c::chunk).length) := by
        change Reaction.next _ (if _ ≤ 1 then _ else _) = _
        rw [if_neg (by simp)]
        rfl
      rw [run_cons hr,ih (by simp)]
      rfl

/-- A line is taken as a whole. -/
theorem run_line (part : Part) (m : Message) (read : Bytes) {line : Bytes} (h : 10 ∉ line) :
    (automaton type).run (.line part m read) line = ⟨[],.line part m (read ++ line),false⟩ := by
  induction line generalizing read with
  | nil => rw [List.append_nil]; rfl
  | cons b line ih =>
    rw [List.mem_cons,not_or] at h
    have hr : react type (.line part m read) b = .next [] (.line part m (read ++ [b])) := by
      change (if b = 10 then _ else _) = _
      rw [if_neg (Ne.symm h.1)]
    rw [run_cons hr,ih _ h.2,List.append_assoc]
    rfl

theorem run_crlf {part : Part} {m : Message} {line : Bytes} {out : List Callback} {s' : State}
    (h : 10 ∉ line) (he : endLine type part m line = .next out s') :
    (automaton type).run (.line part m []) (line ++ crlf) = ⟨out,s',false⟩ := by
  have hline : (automaton type).run (.line part m []) (line ++ [13]) =
      ⟨[],.line part m (line ++ [13]),false⟩ := run_line part m [] (by simp [h])
  have hr : react type (.line part m (line ++ [13])) 10 = .next out s' := by
    have hlast : (line ++ [13]).getLast? = some 13 := List.getLast?_concat
    simp only [react,if_true,hlast,List.dropLast_concat,he]
  rw [show line ++ crlf = (line ++ [13]) ++ [10] by simp [crlf],
    run_then hline [10],run_next hr]
  rfl

theorem newline_notMem_hexSize (n : ℕ) : 10 ∉ hexSize n := by
  intro h
  obtain ⟨d,hd,hb⟩ := mem_hexSize h
  revert hb
  revert d
  decide

theorem run_sizedChunk (m : Message) {chunk : Bytes} (h : chunk ≠ []) :
    (automaton type).run (.line .chunkSize m []) (sizedChunk chunk) =
      ⟨spans chunk,.line .chunkSize m [],false⟩ := by
  have hlen : chunk.length ≠ 0 := by simpa using h
  have hsize : endLine type .chunkSize m (hexSize chunk.length) =
      .next [] (.chunk m chunk.length) := by
    have hn : number 16 (hexSize chunk.length) = some chunk.length :=
      number_digits (by decide) le_rfl hlen
    unfold endLine
    simp only [hn]
  have hhead := run_crlf (newline_notMem_hexSize chunk.length) hsize
  have hend : (automaton type).run (.line .chunkEnd m []) crlf =
      ⟨[],.line .chunkSize m [],false⟩ := rfl
  have hdata : (automaton type).run (.line .chunkSize m []) (hexSize chunk.length ++ crlf ++ chunk) =
      ⟨spans chunk,.line .chunkEnd m [],false⟩ := by
    rw [run_then hhead chunk,run_chunk m h]
    rfl
  rw [sizedChunk,run_then hdata crlf,hend,List.append_nil]

theorem run_chunks (m : Message) {chunks : List Bytes} (h : ∀ chunk ∈ chunks, chunk ≠ []) :
    (automaton type).run (.line .chunkSize m []) (chunks.flatMap sizedChunk) =
      ⟨spans chunks.flatten,.line .chunkSize m [],false⟩ := by
  induction chunks with
  | nil => rfl
  | cons chunk chunks ih =>
    obtain ⟨hchunk,hchunks⟩ := List.forall_mem_cons.mp h
    have hfirst := @run_sizedChunk type m chunk hchunk
    rw [List.flatMap_cons,run_then hfirst,ih hchunks]
    simp [spans]

theorem run_chunked (m : Message) {chunks : List Bytes} (h : ∀ chunk ∈ chunks, chunk ≠ []) :
    ((automaton type).run (.line .chunkSize m []) (chunks.flatMap sizedChunk ++ lastChunk)).out =
      spans chunks.flatten ++ [.onMessageComplete (m.shouldKeepAlive type)] := by
  rw [run_then (run_chunks m h) lastChunk]
  rfl

def outputs : Reaction State Callback → List Callback
  | .next out _ | .fail out _ => out

theorem out_run (s : State) (b : UInt8) :
    ((automaton type).run s [b]).out = outputs (react type s b) := by
  cases hr : react type s b with
  | next out s' => rw [run_next hr]; rfl
  | fail out s' => rw [run_fail hr]; rfl

theorem endsHead_complete {m : Message} {out : List Callback} (h : out.any Callback.endsHead = false) :
    (outputs (complete type m out)).any Callback.endsHead = false := by
  simp only [complete,outputs,List.any_append,h]
  rfl

theorem endsHead_endLine {part : Part} {m : Message} {bytes : Bytes}
    (h : (outputs (endLine type part m bytes)).any Callback.endsHead = true) :
    part = .field ∧ endLine type part m bytes = afterHeaders type m := by
  unfold endLine at h ⊢
  cases part with
  | startLine =>
    dsimp only at h
    split at h
    next line c hc =>
      obtain ⟨_,rfl⟩ | ⟨_,rfl⟩ := startLine_callback hc <;> cases h
    next => cases h
  | field =>
    dsimp only at h ⊢
    split at h
    next hb => exact ⟨rfl,if_pos hb⟩
    next =>
      split at h
      · split at h <;> cases h
      · cases h
  | chunkSize => dsimp only at h; split at h <;> cases h
  | chunkEnd => dsimp only at h; split at h <;> cases h
  | trailer =>
    dsimp only at h
    split at h
    · rw [endsHead_complete rfl] at h
      cases h
    · split at h <;> cases h

/-- A header block ends with the empty line behind the fields. -/
theorem endsHead_react {s : State} {b : UInt8}
    (h : (outputs (react type s b)).any Callback.endsHead = true) :
    ∃ m read, s = .line .field m read ∧ react type s b = afterHeaders type m := by
  cases s with
  | start => rw [react] at h; split at h <;> cases h
  | closed => rw [react] at h; split at h <;> cases h
  | line part m read =>
    rw [react] at h ⊢
    split at h
    next hb =>
      split at h
      next hr =>
        obtain ⟨rfl,heq⟩ := endsHead_endLine h
        exact ⟨m,read,rfl,by rw [if_pos hb,if_pos hr,heq]⟩
      next => cases h
    next => cases h
  | identity m left =>
    rw [react] at h
    split at h
    · rw [endsHead_complete rfl] at h
      cases h
    · cases h
  | chunk m left => cases h
  | untilEof m => cases h

theorem afterHeaders_fail {m : Message} {out : List Callback} {s : State}
    (h : afterHeaders type m = .fail out s) : out = [.onHeadersComplete m.line] := by
  unfold afterHeaders complete at h
  dsimp only at h
  split_ifs at h <;> first | (cases h; rfl) | skip
  all_goals split at h <;> cases h

end

section
variable {H : Type} [LawfulHead H] {type : MessageType}

/-- What is known where a header block ends. -/
structure AtBlock (H : Type) [LawfulHead H] (type : MessageType) (init : Bytes) (b : UInt8)
    (m : Message) : Prop where
  accepted : ((automaton type).run .start init).failed = false
  reflects : Reflects m (LawfulHead.headers (parsed (Llhttp.strict type) H init).head)
  latest : (Llhttp.strict type).latest (init ++ [b]) = outputs (afterHeaders type m)
  react : react type ((automaton type).run .start init).state b = afterHeaders type m

theorem atBlock_of_headEnds {init : Bytes} {b : UInt8}
    (h : (Llhttp.strict type).HeadEnds (init ++ [b])) : ∃ m, AtBlock H type init b m := by
  have hout := (Llhttp.strict type).latest_concat init b
  cases hf : ((automaton type).run .start init).failed with
  | true =>
    rw [Llhttp.HeadEnds,hout,(Llhttp.strict type).behind_of_failed hf] at h
    cases h
  | false =>
    have hlatest : (Llhttp.strict type).latest (init ++ [b]) =
        outputs (Strict.react type ((automaton type).run .start init).state b) :=
      hout.trans (((Llhttp.strict type).behind_of_accepted hf [b]).trans (out_run _ b))
    rw [Llhttp.HeadEnds,hlatest] at h
    obtain ⟨m,read,hstate,hreact⟩ := endsHead_react h
    have hagrees := agrees_parsed (H := H) hf
    rw [hstate] at hagrees
    exact ⟨m,hf,hagrees.1,hlatest.trans (congrArg outputs hreact),hreact⟩

namespace AtBlock
variable {init : Bytes} {b : UInt8} {m : Message} (h : AtBlock H type init b m)
include h

theorem run_eq {out : List Callback} {s : State} (hr : afterHeaders type m = .next out s) :
    ((automaton type).run .start (init ++ [b])).state = s ∧
      ((automaton type).run .start (init ++ [b])).failed = false := by
  have hrun := (automaton type).run_append_of_not_failed [b] h.accepted
  rw [run_next (h.react.trans hr)] at hrun
  exact ⟨congrArg Outcome.state hrun,congrArg Outcome.failed hrun⟩

theorem next_of_accepted
    (hok : ((automaton type).run .start (init ++ [b])).failed = false) :
    ∃ out s, afterHeaders type m = .next out s := by
  cases hr : afterHeaders type m with
  | next out s => exact ⟨out,s,rfl⟩
  | fail out s =>
    rw [(automaton type).run_append_of_not_failed [b] h.accepted,
      run_fail (h.react.trans hr)] at hok
    cases hok

theorem readsBody {out : List Callback} {s : State} {framing : BodyFraming}
    (hr : afterHeaders type m = .next out s) (hs : Starts type m out s framing) :
    (Llhttp.strict type).ReadsBody (init ++ [b]) framing := by
  obtain ⟨hstate,hok⟩ := h.run_eq hr
  have hlatest : (Llhttp.strict type).latest (init ++ [b]) = out :=
    h.latest.trans (congrArg outputs hr)
  have hbehind : ∀ rest, (Llhttp.strict type).behind (init ++ [b]) rest =
      ((automaton type).run s rest).out := fun rest =>
    ((Llhttp.strict type).behind_of_accepted hok rest).trans (hstate ▸ rfl)
  have hopen : out = [.onHeadersComplete m.line] →
      (Llhttp.strict type).AwaitsBody (init ++ [b]) := by
    rintro rfl
    exact ⟨by rw [hlatest]; rfl,hok⟩
  cases framing with
  | empty =>
    change (Llhttp.strict type).latest (init ++ [b]) |>.any Callback.ends
    rw [hlatest,show out = _ from hs]
    rfl
  | length n =>
    obtain ⟨hpos,hout,rfl⟩ := hs
    refine ⟨hopen hout,fun body hle => ?_⟩
    rw [hbehind]
    rcases hle.lt_or_eq with hlt | rfl
    · rw [run_identity_lt m hlt]
      exact ⟨bodyOf_spans body,inBody_spans body,by simp [ends_spans,hlt.ne]⟩
    · rw [run_identity m (List.length_pos_iff.mp hpos)]
      refine ⟨?_,?_,by simp [Callback.ends]⟩
      · rw [bodyOf,List.flatMap_append]
        exact (List.append_nil _).trans (bodyOf_spans body)
      · rw [List.all_append,inBody_spans]
        rfl
  | chunked =>
    obtain ⟨hout,rfl⟩ := hs
    refine ⟨hopen hout,fun chunks hne => ?_⟩
    rw [hbehind,run_chunked m hne]
    refine ⟨?_,by simp [Callback.ends]⟩
    rw [bodyOf,List.flatMap_append]
    exact (List.append_nil _).trans (bodyOf_spans _)
  | untilClose =>
    obtain ⟨hout,rfl⟩ := hs
    refine ⟨hopen hout,fun body => ?_⟩
    rw [hbehind,run_untilEof]
    exact ⟨bodyOf_spans body,inBody_spans body,ends_spans body⟩

theorem separate : bodyOf ((Llhttp.strict type).latest (init ++ [b])) = [] := by
  rw [h.latest]
  have hdone : ∀ out, bodyOf out = [] → bodyOf (outputs (complete type m out)) = [] := by
    intro out hout
    simp only [complete,outputs,bodyOf,List.flatMap_append]
    exact List.append_eq_nil_iff.mpr ⟨hout,rfl⟩
  have hhead : bodyOf [.onHeadersComplete m.line] = [] := rfl
  unfold afterHeaders
  dsimp only
  split_ifs <;> first | exact hhead | exact hdone _ hhead | skip
  all_goals split <;> exact hhead

/-- The head an adapter has when the block is complete. -/
theorem parsed_head {out : List Callback} {s : State} {framing : BodyFraming}
    (hr : afterHeaders type m = .next out s) (hs : Starts type m out s framing) :
    (parsed (Llhttp.strict type) H (init ++ [b])).head =
      ParsedHead.onHeadersComplete (parsed (Llhttp.strict type) H init).head m.line := by
  have hparsed := @parsed_append_of_not_failed (Llhttp.strict type) H _ _ [b] h.accepted
  have hout : ((Llhttp.strict type).execute (parsed (Llhttp.strict type) H init).parser
      [b]).callbacks = out := congrArg Outcome.out (run_next (h.react.trans hr))
  rw [hparsed,hout]
  cases framing with
  | empty =>
    rw [show out = _ from hs]
    rfl
  | length n =>
    obtain ⟨-,rfl,-⟩ := hs
    rfl
  | chunked =>
    obtain ⟨rfl,-⟩ := hs
    rfl
  | untilClose =>
    obtain ⟨rfl,-⟩ := hs
    rfl

end AtBlock

end

theorem refused_of_failed {type : MessageType} {init : Bytes} {b : UInt8} {m : Message}
    (h : AtBlock RequestHead type init b m)
    (hf : ((automaton type).run .start (init ++ [b])).failed = true) :
    ((Llhttp.strict type).latest (init ++ [b])).any Callback.ends = false := by
  rw [h.latest]
  cases hr : afterHeaders type m with
  | next out s =>
    rw [(h.run_eq hr).2] at hf
    cases hf
  | fail out s =>
    rw [afterHeaders_fail hr]
    rfl

/-- The automaton reads a body as the fields of the header block say. -/
theorem followsLengthRule {H : Type} [LawfulHead H] (type : MessageType)
    (rule : H → BodyFraming → Prop)
    (hrule : ∀ (m : Message) (head : H) (out : List Callback) (s : State),
      Reflects m (LawfulHead.headers head) → afterHeaders type m = .next out s →
      ∃ framing, rule (ParsedHead.onHeadersComplete head m.line) framing ∧
        Starts type m out s framing) :
    (Llhttp.strict type).FollowsLengthRule H rule := by
  refine ⟨fun before h => ?_,fun before h hok => ?_,fun before h hf => ?_⟩
  · obtain ⟨init,b,rfl⟩ := (Llhttp.strict type).eq_concat_of_headEnds h
    obtain ⟨m,hm⟩ := atBlock_of_headEnds (H := H) h
    exact hm.separate
  · obtain ⟨init,b,rfl⟩ := (Llhttp.strict type).eq_concat_of_headEnds h
    obtain ⟨m,hm⟩ := atBlock_of_headEnds (H := H) h
    obtain ⟨out,s,hr⟩ := hm.next_of_accepted hok
    obtain ⟨framing,hframing,hstarts⟩ := hrule m _ out s hm.reflects hr
    refine ⟨framing,?_,hm.readsBody hr hstarts⟩
    rw [hm.parsed_head hr hstarts]
    exact hframing
  · obtain ⟨init,b,rfl⟩ := (Llhttp.strict type).eq_concat_of_headEnds h
    obtain ⟨m,hm⟩ := atBlock_of_headEnds (H := RequestHead) h
    exact refused_of_failed hm hf

theorem followsLengthRule_request :
    (Llhttp.strict .request).FollowsLengthRule RequestHead RequestRule :=
  followsLengthRule .request RequestRule fun m head _ _ hm hr =>
    @starts_request m _ _ { head with method := m.line.method, version := m.line.version } hm rfl hr

theorem followsLengthRule_response :
    (Llhttp.strict .response).FollowsLengthRule ResponseHead ResponseRule :=
  followsLengthRule .response ResponseRule fun m head _ _ hm hr =>
    @starts_response m _ _ { head with status := m.line.statusCode, version := m.line.version } hm
      rfl hr

end Strict
end PerCoreShard
