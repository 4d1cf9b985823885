import PerCoreShard.Net.Http.Llhttp.StrictLengths
import PerCoreShard.Session.Body

/-! What is sent upstream. As long as the client does not begin another request before it has
its response, and the filters leave the length of a body as it was announced, the bytes sent in
a cycle begin the one request that was read in it. -/
namespace PerCoreShard
open Library LlhttpParser

section
variable {G : Gateway}

theorem sent_prefix {log : List Effect} (h : Conforms G log) :
    (cycleOf log).request.sent <+: (cycleOf log).request.wire := by
  refine h.induct (P := fun c => c.request.sent <+: c.request.wire) List.prefix_rfl
    fun c last e ih ha => ?_
  cases e with
  | startRequest head =>
    have hsent : c.request.sent = [] := ha.2.2.1
    change c.request.sent <+: _
    rw [hsent]
    exact List.nil_prefix
  | provideRequest chunk isLast => exact List.IsPrefix.trans ih (Ledger.wire_provide _ _)
  | connected socket pooled => exact List.nil_prefix
  | closeUpstream socket => exact List.nil_prefix
  | upstreamWritten data written =>
    obtain ⟨rest,hrest⟩ := ha
    exact ⟨rest,hrest.symm⟩
  | upstreamWriteFailed data written =>
    obtain ⟨⟨rest,hrest⟩,-⟩ := ha
    refine ⟨data.drop written ++ rest,?_⟩
    change c.request.sent ++ data.take written ++ (data.drop written ++ rest) = c.request.wire
    rw [hrest,List.append_assoc,List.append_assoc,← List.append_assoc (data.take written),
      List.take_append_drop]
  | _ => exact ih

theorem shown_request {log : List Effect} (h : Conforms G log) :
    (cycleOf log).request.Shown G.requestLlhttp G.filterChain.applyRequest := by
  refine h.induct
    (P := fun c => c.request.Shown G.requestLlhttp G.filterChain.applyRequest)
    (fun _ _ _ hn => by cases hn) fun c last e ih ha => ?_
  cases e with
  | downstreamRead raw => exact ih.read raw
  | filterRequest head result filtered =>
    obtain ⟨-,-,-,-,-,-,hd,hhead,happly⟩ := ha
    exact Ledger.shown_filter (l := c.request) hd hhead happly
  | _ => exact ih

/-- The head sent upstream is the one the filters passed. -/
theorem passed_request {log : List Effect} (h : Conforms G log) :
    ∀ head, (cycleOf log).request.head = some head → ∃ shown filtered,
      (cycleOf log).request.filtered = some (shown,.continue_,filtered) ∧
        head = Cycle.forwardedHead filtered := by
  refine h.induct (P := fun c => ∀ head, c.request.head = some head → ∃ shown filtered,
    c.request.filtered = some (shown,.continue_,filtered) ∧ head = Cycle.forwardedHead filtered)
    (fun _ hn => by cases hn) fun c last e ih ha => ?_
  cases e with
  | filterRequest head result filtered =>
    have hnone : c.request.head = none := ha.2.2.2.2.2.1
    intro head' hh
    rw [show c.request.head = some head' from hh] at hnone
    cases hnone
  | startRequest head =>
    obtain ⟨-,-,-,-,shown,filtered,hf,hhead⟩ := ha
    rintro _ ⟨rfl⟩
    exact ⟨shown,filtered,hf,hhead⟩
  | _ => exact ih

/-- The head sent upstream, traced back to the bytes that were read. -/
theorem head_request {log : List Effect} (h : Conforms G log) {head : RequestHead}
    (hh : (cycleOf log).request.head = some head) :
    ∃ before ctx filtered ctx', before <+: (cycleOf log).request.input ∧
      (parsed G.requestLlhttp RequestHead before).headerDone = true ∧
      G.filterChain.applyRequest (parsed G.requestLlhttp RequestHead before).head ctx =
        (.continue_,filtered,ctx') ∧ head = Cycle.forwardedHead filtered := by
  obtain ⟨shown,filtered,hf,hhead⟩ := passed_request h head hh
  obtain ⟨before,ctx,ctx',hpre,hd,rfl,happly⟩ := shown_request h _ _ _ hf
  exact ⟨before,ctx,filtered,ctx',hpre,hd,happly,hhead⟩

end

/-- A request whose bytes are `head` followed by a body that is read as `body`, with nothing
left over. -/
def CompleteRequest (bytes : Bytes) (head : RequestHead) (body : Bytes) : Prop :=
  ∃ rest, bytes = head.bytes ++ rest ∧ readRequestBody head.headers rest = some (body,[])

/-- What was sent begins one request: its head is what the filters made of the head of the
first message that was read, and its body is the body of that message. -/
structure OneRequest (G : Gateway) (l : Ledger RequestHead) : Prop where
  unsent : l.head = none → l.sent = []
  sent : l.sent <+: l.wire
  head : ∀ head, l.head = some head → ∃ before shown filtered, before <+: l.input ∧
    (first G.requestLlhttp RequestHead before).headerDone = true ∧
    shown = (first G.requestLlhttp RequestHead before).head ∧
    l.filtered = some (shown,.continue_,filtered) ∧
    (∃ ctx ctx', G.filterChain.applyRequest shown ctx = (.continue_,filtered,ctx')) ∧
    head = Cycle.forwardedHead filtered
  one : ∀ head, l.head = some head → ∃ more body, CompleteRequest (l.sent ++ more) head body ∧
    payload l.provided <+: body
  body : payload l.provided <+: (first G.requestLlhttp RequestHead l.input).scratch
  whole : final l.provided = true →
    (first G.requestLlhttp RequestHead l.input).messageDone = true ∧
    payload l.provided = (first G.requestLlhttp RequestHead l.input).scratch ∧
    ∀ head, l.head = some head → CompleteRequest l.wire head (payload l.provided)

/-- The head that was filtered announces its body as the header block did. A CONNECT request
has no body, whatever it announces. -/
def KeepsLength (block filtered : RequestHead) : Prop :=
  (requestFraming filtered.headers).isSome = true ∧
    requestFraming filtered.headers = requestFraming block.headers ∧
    (block.method = ascii "CONNECT" → requestFraming filtered.headers = some .empty)

instance (block filtered : RequestHead) : Decidable (KeepsLength block filtered) :=
  inferInstanceAs (Decidable (_ ∧ _ ∧ (_ → _)))

theorem requestFraming_congr {headers headers' : List Header}
    (hf : framingFields headers = framingFields headers') :
    requestFraming headers = requestFraming headers' := by
  have hte : headers.filter isTransferEncoding = headers'.filter isTransferEncoding := by
    rw [← filter_isTransferEncoding,hf,filter_isTransferEncoding]
  have hcl : headers.filter isContentLength = headers'.filter isContentLength := by
    rw [← filter_isContentLength,hf,filter_isContentLength]
  have hany : ∀ (p : Header → Bool) (hs : List Header), hs.any p = (hs.filter p).any p :=
    fun p hs => by simp [List.any_filter]
  rw [requestFraming,hany,hte,← hany,finallyChunked,hte,hany isContentLength,hcl,← hany,
    contentLength,hcl]
  rfl

theorem uncoded_of_not_chunked {headers : List Header} {framing : BodyFraming}
    (h : requestFraming headers = some framing) (hne : framing ≠ .chunked) :
    hasChunkedEncoding headers = false := by
  rw [Bool.eq_false_iff]
  intro hc
  rw [requestFraming,if_pos (any_of_hasChunkedEncoding hc)] at h
  split at h
  · exact hne (Option.some.inj h).symm
  · cases h

theorem coded_of_chunked {headers : List Header} (h : requestFraming headers = some .chunked) :
    hasChunkedEncoding headers = true := by
  unfold requestFraming at h
  split at h
  next =>
    split at h
    next hc =>
      rw [Bool.and_eq_true] at hc
      exact hasChunkedEncoding_of_finallyChunked hc.1
    next => cases h
  next =>
    split at h
    · obtain ⟨n,-,hn⟩ := Option.map_eq_some_iff.mp h
      unfold lengthFraming at hn
      split at hn <;> cases hn
    · cases h

theorem framing_ne_untilClose {headers : List Header} :
    requestFraming headers ≠ some .untilClose := by
  intro h
  unfold requestFraming at h
  split at h
  · split at h <;> cases h
  split at h
  · obtain ⟨n,-,hn⟩ := Option.map_eq_some_iff.mp h
    unfold lengthFraming at hn
    split at hn <;> cases hn
  · cases h

/-- A body that fits its framing makes up a complete request with its head. -/
theorem completeRequest_of_fits {head : RequestHead} {framing : BodyFraming}
    (hframing : requestFraming head.headers = some framing) {provided : List (Bytes × Bool)}
    (hf : final provided = true) (honly : final provided.dropLast = false)
    (hfits : framing.Fits (payload provided) true) :
    CompleteRequest (head.bytes ++ encodeAll (hasChunkedEncoding head.headers) provided) head
      (payload provided) := by
  refine ⟨_,rfl,?_⟩
  unfold readRequestBody
  rw [hframing]
  cases framing with
  | empty =>
    have hnil : payload provided = [] := hfits
    rw [uncoded_of_not_chunked hframing (by decide),encodeAll_verbatim,hnil]
  | length n =>
    rw [uncoded_of_not_chunked hframing (by simp),encodeAll_verbatim]
    simp [hfits.2 rfl]
  | chunked =>
    rw [coded_of_chunked hframing,encodeAll_chunked hf honly]
    have hlen := length_le_flatMap (pieces provided)
    have hread := readChunks_flatMap (fun _ => ne_nil_of_mem_pieces)
      (show (pieces provided).length <
        ((pieces provided).flatMap sizedChunk ++ lastChunk).length + 1 by
          rw [List.length_append]; omega) []
    rwa [List.append_nil,flatten_pieces] at hread
  | untilClose => exact absurd hframing framing_ne_untilClose

/-- A part of a body that fits its framing can be completed. -/
theorem exists_rest_of_fits {framing : BodyFraming} (hne : framing ≠ .untilClose) {part body : Bytes}
    {done : Bool} (hp : part <+: body) (hfits : framing.Fits body done) :
    ∃ more, framing.Fits (part ++ more) true := by
  cases framing with
  | empty =>
    have hnil : body = [] := hfits
    rw [hnil,List.prefix_nil] at hp
    exact ⟨[],by rw [hp]; rfl⟩
  | length n =>
    have hle : part.length ≤ n := hp.length_le.trans hfits.1
    have hlen : (part ++ List.replicate (n - part.length) 0).length = n := by
      rw [List.length_append,List.length_replicate]
      omega
    exact ⟨_,hlen.le,fun _ => hlen⟩
  | chunked => exact ⟨[],trivial⟩
  | untilClose => exact absurd rfl hne

/-- A request whose body is still coming is completed by one more piece. -/
theorem exists_completion {head : RequestHead} {framing : BodyFraming}
    (hframing : requestFraming head.headers = some framing) {provided : List (Bytes × Bool)}
    (hfinal : final provided = false) {body : Bytes} {done : Bool}
    (hpay : payload provided <+: body) (hfits : framing.Fits body done) :
    ∃ more whole, CompleteRequest
      (head.bytes ++ encodeAll (hasChunkedEncoding head.headers) provided ++ more) head whole ∧
        payload provided <+: whole := by
  obtain ⟨more,hmore⟩ := exists_rest_of_fits
    (fun hn => framing_ne_untilClose (hn ▸ hframing)) hpay hfits
  have hpayload : payload (provided ++ [(more,true)]) = payload provided ++ more := by
    simp [payload]
  have hlast : final (provided ++ [(more,true)]) = true := by rw [final_append,Bool.or_true]
  have hcomplete := completeRequest_of_fits hframing hlast
    (by rw [List.dropLast_concat]; exact hfinal) (hpayload ▸ hmore)
  rw [encodeAll_append,← List.append_assoc] at hcomplete
  exact ⟨_,_,hcomplete,hpayload ▸ List.prefix_append _ more⟩

/-- The head that the filters passed, if they passed one, announces its body as the header block
did. -/
def LengthKept (ll : Llhttp) (l : Ledger RequestHead) : Prop :=
  ∀ answer ∈ l.filtered, answer.2.1 = .continue_ → ∃ before ∈ l.input.inits, ll.HeadEnds before ∧
    KeepsLength (parsed ll RequestHead before).head answer.2.2

instance (ll : Llhttp) (l : Ledger RequestHead) : Decidable (LengthKept ll l) :=
  inferInstanceAs (Decidable (∀ answer ∈ l.filtered, _ → ∃ before ∈ _, _ ∧ _))

section
variable {G : Gateway}

/-- The request that was read fits the framing that the filtered head announces. -/
theorem fits_of_lengthKept (hlaw : G.requestLlhttp.FollowsLengthRule RequestHead RequestRule)
    {l : Ledger RequestHead} (halone : Alone G.requestLlhttp l.input)
    (hkept : LengthKept G.requestLlhttp l) {shown filtered : RequestHead}
    (hf : l.filtered = some (shown,.continue_,filtered)) :
    ∃ framing, requestFraming (Cycle.forwardedHead filtered).headers = some framing ∧
      framing.Fits (l.parse G.requestLlhttp).scratch (l.parse G.requestLlhttp).messageDone := by
  obtain ⟨before,hmem,he,hsome,hblock,hconnect⟩ := hkept _ hf rfl
  obtain ⟨rest,hrest⟩ := (List.mem_inits _ _).mp hmem
  obtain ⟨framing,hframing⟩ := Option.isSome_iff_exists.mp hsome
  refine ⟨framing,(requestFraming_congr (framingFields_setConnection _ _)).trans hframing,?_⟩
  rw [hframing] at hblock hconnect
  unfold Ledger.parse
  rw [← hrest] at halone ⊢
  refine hlaw.fits halone he fun announced hrule => ?_
  unfold RequestRule at hrule
  split at hrule
  next hm => rw [hrule,Option.some.inj (hconnect hm)]
  next => exact hrule framing hblock.symm

theorem oneRequest_of_conforms (hnd : G.filterChain.NoData)
    (hlaw : G.requestLlhttp.FollowsLengthRule RequestHead RequestRule) {log : List Effect}
    (h : Conforms G log) (halone : Alone G.requestLlhttp (cycleOf log).request.input)
    (hkept : LengthKept G.requestLlhttp (cycleOf log).request) :
    OneRequest G (cycleOf log).request := by
  have hsent := sent_prefix h
  have hb := booked_request h
  have hu := (untouched_of_conforms hnd h).1
  have hpay := hb.payload_prefix hu
  have hwire : ∀ head, (cycleOf log).request.head = some head → (cycleOf log).request.wire =
      head.bytes ++ encodeAll (hasChunkedEncoding head.headers) (cycleOf log).request.provided := by
    intro head hh
    rw [Ledger.wire,hh]
    rfl
  refine ⟨fun hn => ?_,hsent,fun head hh => ?_,fun head hh => ?_,?_,fun hf => ?_⟩
  · unfold Ledger.wire at hsent
    rw [hn] at hsent
    exact List.prefix_nil.mp hsent
  · obtain ⟨shown,filtered,hf,hhead⟩ := passed_request h head hh
    obtain ⟨before,ctx,ctx',hpre,hd,rfl,happly⟩ := shown_request h _ _ _ hf
    have heq := (halone.of_prefix hpre).first_eq (H := RequestHead)
    refine ⟨before,_,filtered,hpre,?_,?_,hf,⟨ctx,ctx',happly⟩,hhead⟩
    · rw [heq]
      exact hd
    · rw [heq]
  · obtain ⟨shown,filtered,hf,rfl⟩ := passed_request h head hh
    obtain ⟨framing,hframing,hfits⟩ := fits_of_lengthKept hlaw halone hkept hf
    obtain ⟨after,hafter⟩ := hsent
    rw [hwire _ hh] at hafter
    cases hfinal : final (cycleOf log).request.provided with
    | true =>
      obtain ⟨hdone,-,-⟩ := hb.complete hfinal
      rw [← hb.payload_final hu hfinal,hdone] at hfits
      refine ⟨after,_,?_,List.prefix_rfl⟩
      rw [hafter]
      exact completeRequest_of_fits hframing hfinal hb.only hfits
    | false =>
      obtain ⟨more,body,hcomplete,hbody⟩ := exists_completion hframing hfinal hpay hfits
      rw [← hafter,List.append_assoc] at hcomplete
      exact ⟨_,body,hcomplete,hbody⟩
  · rw [halone.first_eq]
    exact hpay
  · rw [halone.first_eq]
    obtain ⟨hdone,-,-⟩ := hb.complete hf
    refine ⟨hdone,hb.payload_final hu hf,fun head hh => ?_⟩
    obtain ⟨shown,filtered,hfiltered,rfl⟩ := passed_request h head hh
    obtain ⟨framing,hframing,hfits⟩ := fits_of_lengthKept hlaw halone hkept hfiltered
    rw [← hb.payload_final hu hf,hdone] at hfits
    rw [hwire _ hh]
    exact completeRequest_of_fits hframing hf hb.only hfits

end

/-- The bytes are those of one request without trailers, whose transfer codings end in
`chunked` if it has any. -/
structure WellFormedRequest (ll : Llhttp) (input : Bytes) : Prop where
  alone : Alone ll input
  noTrailers : noTrailers (ll.run ll.start input).out = true
  codings : (parsed ll RequestHead input).head.headers.any isTransferEncoding = true →
    finallyChunked (parsed ll RequestHead input).head.headers = true

/-- The filters have passed this request and left its framing fields alone. -/
def PassesRequest (G : Gateway) (head filtered : RequestHead) : Prop :=
  (∃ ctx ctx', G.filterChain.applyRequest head ctx = (.continue_,filtered,ctx')) ∧
    framingFields filtered.headers = framingFields head.headers

/-- How a body goes over the wire: verbatim, or as nonempty chunks and the one that ends it. -/
def BodyOnWire (chunked : Bool) (body bytes : Bytes) : Prop :=
  if chunked then ∃ chunks : List Bytes, (∀ chunk ∈ chunks, chunk ≠ []) ∧ chunks.flatten = body ∧
    bytes = chunks.flatMap sizedChunk ++ lastChunk
  else bytes = body

theorem bodyOnWire_encodeAll {provided : List (Bytes × Bool)} (hf : final provided = true)
    (honly : final provided.dropLast = false) (chunked : Bool) :
    BodyOnWire chunked (payload provided) (encodeAll chunked provided) := by
  cases chunked with
  | false => exact encodeAll_verbatim provided
  | true => exact ⟨pieces provided,fun _ => ne_nil_of_mem_pieces,flatten_pieces provided,
      encodeAll_chunked hf honly⟩

namespace HttpSession
variable {G : Gateway}

/-- When the response phase begins, a well-formed request has been sent upstream completely:
the filtered head with its `Connection` fields replaced, and the body in the framing of the
request. -/
theorem request_relayed (hnd : G.filterChain.NoData) {s : HttpSession G}
    (h : (system G).Reaches s) {log : List Effect} (hlog : log ∈ s.cycles)
    (past future : List Effect) (hat : log = past ++ .startResponsePhase::future)
    (hw : WellFormedRequest G.requestLlhttp (cycleOf past).request.input)
    (hkeeps : (cycleOf past).request.KeepsFraming) :
    ∃ filtered body,
      (cycleOf past).request.filtered =
        some (((cycleOf past).request.parse G.requestLlhttp).head,.continue_,filtered) ∧
      PassesRequest G ((cycleOf past).request.parse G.requestLlhttp).head filtered ∧
      (cycleOf past).request.sent = (Cycle.forwardedHead filtered).bytes ++ body ∧
      BodyOnWire
        (finallyChunked ((cycleOf past).request.parse G.requestLlhttp).head.headers)
        ((cycleOf past).request.parse G.requestLlhttp).scratch body := by
  subst hat
  obtain ⟨hc,hfwd,hfinal,hsent,-⟩ := (conforms_of_reaches h hlog).allows
  have hb := booked_request hc
  have hu := (untouched_of_conforms hnd hc).1
  obtain ⟨head,hhead⟩ := Option.isSome_iff_exists.mp hfwd.started
  obtain ⟨shown,filtered,hf,rfl⟩ := passed_request hc head hhead
  obtain ⟨before,ctx,ctx',hpre,hd,rfl,happly⟩ := shown_request hc _ _ _ hf
  -- the head the filters were shown is the head of the whole request
  have hsame := head_of_prefix hpre hw.noTrailers hd
  have hfields : framingFields filtered.headers = framingFields _ := hkeeps _ hf
  rw [hsame] at hf happly hfields
  refine ⟨filtered,encodeAll (hasChunkedEncoding (Cycle.forwardedHead filtered).headers)
    (cycleOf past).request.provided,hf,⟨⟨ctx,ctx',happly⟩,hfields⟩,?_,?_⟩
  · rw [hsent,Ledger.wire,hhead]
    rfl
  · have hchunked : hasChunkedEncoding (Cycle.forwardedHead filtered).headers =
        finallyChunked ((cycleOf past).request.parse G.requestLlhttp).head.headers := by
      rw [Cycle.forwardedHead,hasChunkedEncoding_setConnection,hasChunkedEncoding_congr hfields]
      exact hasChunkedEncoding_eq hw.codings
    rw [hchunked,← hb.payload_final hu hfinal]
    exact bodyOnWire_encodeAll hfinal hb.only _

/-- Adds a field to every request. -/
def tagFilter : Filter Unit where
  onRequest head ctx := (.continue_,{ head with headers := head.headers ++ [⟨ascii "X",ascii "1"⟩] },ctx)

/-- A chunked request in two reads. -/
def chunkedRun : HttpSession (.strict [tagFilter] 128) :=
  strictRun [tagFilter] 128
    [.read (ascii "POST / HTTP/1.1\r\nTransfer-Encoding: chunked\r\n\r\n2\r\nab\r\n"),
      .connected 7,.wrote 84,.read (ascii "1\r\nc\r\n0\r\n\r\n"),.wrote 11]

/-- Its log up to the response phase. -/
def chunkedPast : List Effect := chunkedRun.log.takeWhile fun e => e != .startResponsePhase

theorem request_relayed_chunked :
    let G := Gateway.strict [tagFilter] 128
    ∃ filtered body,
      (cycleOf chunkedPast).request.filtered =
        some (((cycleOf chunkedPast).request.parse G.requestLlhttp).head,.continue_,filtered) ∧
      PassesRequest G ((cycleOf chunkedPast).request.parse G.requestLlhttp).head filtered ∧
      (cycleOf chunkedPast).request.sent = (Cycle.forwardedHead filtered).bytes ++ body ∧
      BodyOnWire
        (finallyChunked ((cycleOf chunkedPast).request.parse G.requestLlhttp).head.headers)
        ((cycleOf chunkedPast).request.parse G.requestLlhttp).scratch body := by
  have hnd : (Gateway.strict [tagFilter] 128).filterChain.NoData := by
    rintro f hf data endStream ctx
    rw [List.mem_singleton.mp hf]
    exact ⟨rfl,rfl⟩
  have hreach : (system _).Reaches chunkedRun := reaches_strictRun (by decide +kernel)
  have hat : chunkedRun.log = chunkedPast ++ [.startResponsePhase,.readUpstream] := by
    decide +kernel
  have hw : WellFormedRequest (Gateway.strict [tagFilter] 128).requestLlhttp
      (cycleOf chunkedPast).request.input :=
    ⟨by decide +kernel,by decide +kernel,by decide +kernel⟩
  have hkeeps : (cycleOf chunkedPast).request.KeepsFraming := by decide +kernel
  exact request_relayed hnd hreach (List.mem_append_right _ (List.mem_singleton_self _)) _ _ hat
    hw hkeeps

/-- What is read in a cycle is of one message, and the filters leave the length of its body as
it was announced. -/
structure ReadsOneRequest (ll : Llhttp) (l : Ledger RequestHead) : Prop where
  alone : Alone ll l.input
  kept : LengthKept ll l

theorem input_grows (past future : List Effect) :
    (cycleOf past).request.input <+: (cycleOf (past ++ future)).request.input := by
  induction future using List.reverseRecOn with
  | nil => rw [List.append_nil]
  | append_singleton future e ih =>
    rw [← List.append_assoc,cycleOf_append]
    cases e with
    | downstreamRead raw =>
      rw [show ((cycleOf (past ++ future)).record (.downstreamRead raw)).request.input =
        (cycleOf (past ++ future)).request.input ++ raw from Ledger.input_read _ _]
      exact ih.trans (List.prefix_append _ _)
    | _ => exact ih

/-- The answer of the filters stays on record. -/
theorem filtered_of_append {past future : List Effect} (h : Conforms G (past ++ future))
    {answer : RequestHead × FilterHeaderResult × RequestHead}
    (hf : (cycleOf past).request.filtered = some answer) :
    (cycleOf (past ++ future)).request.filtered = some answer := by
  induction future using List.reverseRecOn with
  | nil => rwa [List.append_nil]
  | append_singleton future e ih =>
    rw [← List.append_assoc] at h ⊢
    obtain ⟨hpast,ha⟩ := conforms_append.mp h
    have hold := ih hpast
    rw [cycleOf_append]
    cases e with
    | filterRequest head result filtered =>
      obtain ⟨-,-,-,-,hnone,-⟩ := ha
      rw [hold] at hnone
      cases hnone
    | _ => exact hold

/-- A cycle that reads one request reads nothing else at any moment. -/
theorem ReadsOneRequest.of_append {past future : List Effect} (h : Conforms G (past ++ future))
    (hone : ReadsOneRequest G.requestLlhttp (cycleOf (past ++ future)).request) :
    ReadsOneRequest G.requestLlhttp (cycleOf past).request where
  alone := hone.alone.of_prefix (input_grows past future)
  kept := by
    rintro ⟨shown,result,filtered⟩ hf hresult
    obtain ⟨before,hmem,he,hkeeps⟩ := hone.kept _ (filtered_of_append h hf) hresult
    obtain ⟨known,ctx,ctx',hknown,hd,-,-⟩ :=
      shown_request ((atEvery_append _ _ _).mp h).1 _ _ _ hf
    -- the block that the filters were shown is the one that keeps its length
    obtain ⟨block,rest,hsplit,hblock⟩ := exists_block hd
    have hp : block <+: (cycleOf past).request.input :=
      (show block <+: known from ⟨rest,hsplit.symm⟩).trans hknown
    have heq := hone.alone.headEnds_unique ((List.mem_inits _ _).mp hmem)
      (hp.trans (input_grows past future)) he hblock.ends
    exact ⟨block,(List.mem_inits _ _).mpr hp,hblock.ends,heq ▸ hkeeps⟩

/-- A cycle that has ended has read a whole message. -/
theorem messageDone_of_past {s : HttpSession G} (h : (system G).Reaches s) {log : List Effect}
    (hlog : log ∈ s.past) :
    ((cycleOf log).request.parse G.requestLlhttp).messageDone = true := by
  obtain ⟨past,rfl,hpast,ha,-⟩ := reset_of_past h hlog
  rw [cycleOf_append]
  exact ((booked_request hpast).complete (hpast.request_of_responding ha.responding).2).1

/-- Two requests, the second one read after the first was answered. -/
def keepAliveRun : HttpSession (.strict [] 64) :=
  strictRun [] 64 [.read (ascii "POST /a HTTP/1.1\r\nContent-Length: 1\r\n\r\nx"),.connected 7,
    .wrote 64,.read (ascii "HTTP/1.1 200 OK\r\nContent-Length: 0\r\n\r\n"),.wrote 62,
    .read (ascii "GET /b HTTP/1.1\r\n\r\n"),.connected 8]

/-- The second request begins in the read that ends the first one. -/
def pipelinedRun : HttpSession (.strict [] 64) :=
  strictRun [] 64 [.read (ascii "POST /a HTTP/1.1\r\nContent-Length: 1\r\n\r\n"),.connected 7,
    .wrote 63,.read (ascii "xPOST /b HTTP/1.1\r\nContent-Length: 3\r\n\r\nabc")]

end HttpSession
end PerCoreShard
