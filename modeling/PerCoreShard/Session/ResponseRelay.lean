import PerCoreShard.Net.Http.Llhttp.StrictLengths
import PerCoreShard.Session.Body

/-! What the client reads. The parser and the serializer decide on the length of a response
independently; the bytes of a response after which the connection stays open are read as one
complete response unless the two disagree. -/
namespace PerCoreShard
open Library LlhttpParser

/-- A response whose bytes are `head` followed by a body that is read as `body`, with nothing
left over. -/
def CompleteResponse (method bytes : Bytes) (head : ResponseHead) (body : Bytes) : Prop :=
  ∃ rest, bytes = head.bytes ++ rest ∧ readBody method head rest = some (body,[])

theorem completeResponse_iff (method : Bytes) (head : ResponseHead) (body rest : Bytes) :
    CompleteResponse method (head.bytes ++ rest) head body ↔
      readBody method head rest = some (body,[]) := by
  constructor
  · rintro ⟨rest',heq,hread⟩
    rw [List.append_cancel_left heq]
    exact hread
  · exact fun h => ⟨rest,rfl,h⟩

/-- How a body is read that was written chunk by chunk if the head mentions the coding, and
verbatim if it does not. -/
theorem readBody_iff {method : Bytes} (hm : method ≠ ascii "HEAD" ∧ method ≠ ascii "CONNECT")
    {head : ResponseHead} {body rest : Bytes} {chunks : List Bytes}
    (hne : ∀ chunk ∈ chunks, chunk ≠ []) (hbody : chunks.flatten = body)
    (hrest : rest = if hasChunkedEncoding head.headers then
      chunks.flatMap sizedChunk ++ lastChunk else body) :
    readBody method head rest = some (body,[]) ↔
      if bodiless head.status then hasChunkedEncoding head.headers = false ∧ body = []
      else if head.headers.any isTransferEncoding then finallyChunked head.headers = true
      else contentLength head.headers = some body.length := by
  unfold readBody
  cases hs : bodiless head.status with
  | true =>
    rw [if_pos (.inr rfl),if_pos rfl]
    cases hc : hasChunkedEncoding head.headers with
    | true =>
      rw [hc,if_pos rfl] at hrest
      simp [hrest,lastChunk,crlf]
    | false =>
      rw [hc] at hrest
      simp [hrest,eq_comm]
  | false =>
    rw [if_neg (by simp [hm.1]),if_neg (by simp [hm.2]),if_neg Bool.false_ne_true]
    cases ht : head.headers.any isTransferEncoding with
    | true =>
      rw [if_pos rfl,if_pos rfl]
      split
      next hfinal =>
        rw [hasChunkedEncoding_of_finallyChunked hfinal,if_pos rfl] at hrest
        have hfuel : chunks.length < (chunks.flatMap sizedChunk ++ lastChunk).length + 1 := by
          have := length_le_flatMap chunks
          rw [List.length_append]
          omega
        have hread := readChunks_flatMap hne hfuel []
        rw [List.append_nil,← hrest,hbody] at hread
        exact iff_of_true hread hfinal
      next hfinal => exact iff_of_false (by simp) hfinal
    | false =>
      have hchunked : hasChunkedEncoding head.headers = false := by
        rw [Bool.eq_false_iff]
        intro hc
        rw [any_of_hasChunkedEncoding hc] at ht
        cases ht
      rw [hchunked,if_neg Bool.false_ne_true] at hrest
      rw [if_neg Bool.false_ne_true,if_neg Bool.false_ne_true,hrest]
      cases contentLength head.headers with
      | none => simp
      | some n =>
        simp only [Option.bind_eq_bind,Option.bind_some,Option.ite_none_right_eq_some,
          Option.some.injEq,Prod.mk.injEq]
        constructor
        · rintro ⟨hle,-,hdrop⟩
          exact le_antisymm hle (List.drop_eq_nil_iff.mp hdrop)
        · rintro rfl
          simp

section
variable {G : Gateway}

theorem shown_response {log : List Effect} (h : Conforms G log) :
    (cycleOf log).response.Shown G.responseLlhttp G.filterChain.applyResponse := by
  refine h.induct
    (P := fun c => c.response.Shown G.responseLlhttp G.filterChain.applyResponse)
    (fun _ _ _ hn => by cases hn) fun c last e ih ha => ?_
  cases e with
  | startResponsePhase =>
    have hreads : c.response.reads = [] := ha.2.2.2
    have heq : (c.record .startResponsePhase).response = c.response := by
      simp only [Cycle.record]
      rw [← hreads]
    rw [heq]
    exact ih
  | upstreamRead raw => exact ih.read raw
  | filterResponse head result filtered =>
    obtain ⟨-,-,-,-,-,hd,hhead,happly⟩ := ha
    exact Ledger.shown_filter (l := c.response) hd hhead happly
  | _ => exact ih

/-- A relayed response is the first thing that is written in its cycle. -/
theorem earlier_of_not_direct {log : List Effect} (h : Conforms G log)
    (hd : (cycleOf log).direct = false) : (cycleOf log).earlier = [] := by
  refine h.induct_log (P := fun log => (cycleOf log).direct = false → (cycleOf log).earlier = [])
    (fun _ => rfl) (fun log e _ ih ha hd => ?_) hd
  rw [cycleOf_append] at hd ⊢
  cases e with
  | startResponse head =>
    rcases ha with ⟨body,hlast⟩ | ⟨-,-,-,hissued,-⟩
    · rw [show ((cycleOf log).record (.startResponse head)).direct = (cycleOf log).direct from rfl,
        direct_of_last hlast] at hd
      cases hd
    · exact hissued
  | respondDirectly head body => cases hd
  | _ => exact ih hd

/-- What is written when a response was relayed to its end. -/
theorem issued_of_answered {log : List Effect} (h : Conforms G log) (ha : (cycleOf log).Answered G)
    {head : ResponseHead} (hhead : (cycleOf log).response.head = some head) :
    (cycleOf log).issued = head.bytes ++
      encodeAll (hasChunkedEncoding head.headers) (cycleOf log).response.provided := by
  rw [ha.issued,ha.sent,earlier_of_not_direct h ha.notDirect,List.nil_append,Ledger.wire,hhead]
  rfl

end

/-- The bytes are those of one final response. -/
structure FinalResponse (ll : Llhttp) (input : Bytes) : Prop where
  alone : Alone ll input
  final : ∀ before, before <+: input → ll.HeadEnds before →
    200 ≤ (parsed ll ResponseHead before).head.status

/-- The bytes written downstream are the response that was relayed, complete and alone. -/
def RelayedWhole (G : Gateway) (method : Bytes) (c : Cycle) : Prop :=
  ∃ head, c.response.head = some head ∧
    CompleteResponse method c.issued head (c.response.parse G.responseLlhttp).scratch

/-- The head that is written announces the body that is written behind it. -/
def Announces (shown filtered : ResponseHead) (body : Bytes) : Prop :=
  if bodiless filtered.status then hasChunkedEncoding shown.headers = false ∧ body = []
  else if shown.headers.any isTransferEncoding then finallyChunked shown.headers = true
  else bodiless shown.status = true → contentLength shown.headers = some 0

/-- The fields decide alike on heads with the same framing fields. -/
theorem framing_congr {headers headers' : List Header}
    (hf : framingFields headers = framingFields headers') :
    headers.any isTransferEncoding = headers'.any isTransferEncoding ∧
      finallyChunked headers = finallyChunked headers' ∧
      contentLength headers = contentLength headers' := by
  have hte : headers.filter isTransferEncoding = headers'.filter isTransferEncoding := by
    rw [← filter_isTransferEncoding,hf,filter_isTransferEncoding]
  have hcl : headers.filter isContentLength = headers'.filter isContentLength := by
    rw [← filter_isContentLength,hf,filter_isContentLength]
  have hmem : ∀ hs : List Header, hs.any isTransferEncoding =
      (hs.filter isTransferEncoding).any isTransferEncoding := fun hs => by simp [List.any_filter]
  refine ⟨?_,?_,?_⟩
  · rw [hmem,hte,← hmem]
  · rw [finallyChunked,hte,finallyChunked]
  · rw [contentLength,hcl,contentLength]

section
variable {ll : Llhttp} {before rest : Bytes}

theorem status_foldl {cs : List Callback} (p : LlhttpResponseParser ll)
    (hn : cs.any Callback.endsHead = false)
    (hsame : (cs.all fun c => c != .onMessageBegin) = true) :
    (cs.foldl dispatch p).head.status = p.head.status := by
  induction cs generalizing p with
  | nil => rfl
  | cons c cs ih =>
    rw [List.any_cons,Bool.or_eq_false_iff] at hn
    rw [List.all_cons,Bool.and_eq_true] at hsame
    rw [List.foldl_cons,ih _ hn.2 hsame.2]
    cases c with
    | onMessageBegin => exact absurd hsame.1 (by decide)
    | onHeadersComplete keepAlive => cases hn.1
    | _ => rfl

/-- What comes behind a header block does not change the status. -/
theorem status_of_block (h : Alone ll (before ++ rest)) (he : ll.HeadEnds before) :
    (parsed ll ResponseHead (before ++ rest)).head.status =
      (parsed ll ResponseHead before).head.status := by
  have hd : (parsed ll ResponseHead before).headerDone = true :=
    (h.of_prefix (List.prefix_append _ _)).headerDone_of_headEnds he
  have hall := status_foldl ((ll.run ll.start before).out.foldl dispatch (create ll ResponseHead))
    (h.not_endsHead hd) (h.same hd)
  rw [← List.foldl_append,← ll.out_behind] at hall
  exact hall

/-- Without codings there are no trailer fields. -/
theorem headers_of_uncoded (hlaw : ll.FollowsLengthRule ResponseHead ResponseRule)
    (h : Alone ll (before ++ rest)) (he : ll.HeadEnds before)
    (hok : (ll.run ll.start before).failed = false)
    (hte : (parsed ll ResponseHead before).head.headers.any isTransferEncoding = false) :
    (parsed ll ResponseHead (before ++ rest)).head.headers =
      (parsed ll ResponseHead before).head.headers := by
  have hblock := h.block he
  obtain ⟨trailers,hshown,hnone⟩ := headers_of_block (H := ResponseHead) hblock
  obtain ⟨framing,hrule,hreads⟩ := hlaw.reads before he hok
  have hchunked : framing ≠ .chunked := by
    rintro rfl
    by_cases hempty : BodyFraming.chunked = .empty
    · cases hempty
    · have hfinal := (finallyChunked_iff hrule hempty).mpr rfl
      rw [any_of_finallyChunked hfinal] at hte
      cases hte
  refine hshown.trans ?_
  rw [hnone ?_]
  · exact List.append_nil _
  · by_cases hempty : framing = .empty
    · subst hempty
      have hends : (ll.run ll.start before).out.any Callback.ends = true := by
        obtain ⟨init,b,rfl⟩ := ll.eq_concat_of_headEnds he
        have hlatest : (ll.latest (init ++ [b])).any Callback.ends = true := hreads
        rw [ll.latest_concat] at hlatest
        rw [ll.out_behind,List.any_append,hlatest,Bool.or_true]
      rw [h.behind_ended hends]
      rfl
    · exact inBody_of_readsBody hblock hreads hempty hchunked

/-- A final response without codings that has come to its end has the length it announces,
unless its status says that it has none. -/
theorem length_of_done (hlaw : ll.FollowsLengthRule ResponseHead ResponseRule)
    (h : Alone ll (before ++ rest)) (he : ll.HeadEnds before)
    (hdone : (parsed ll ResponseHead (before ++ rest)).messageDone = true)
    (hfinal : 200 ≤ (parsed ll ResponseHead before).head.status)
    (hte : (parsed ll ResponseHead before).head.headers.any isTransferEncoding = false) :
    (bodiless (parsed ll ResponseHead before).head.status = true →
      (parsed ll ResponseHead (before ++ rest)).scratch = []) ∧
    (bodiless (parsed ll ResponseHead before).head.status = false →
      contentLength (parsed ll ResponseHead before).head.headers =
        some (parsed ll ResponseHead (before ++ rest)).scratch.length) := by
  obtain ⟨framing,hrule,hreads⟩ := hlaw.reads before he (hlaw.accepted_of_done h he hdone)
  have hfits := hlaw.fits_of_readsBody h he hreads
  rw [hdone] at hfits
  generalize (parsed ll ResponseHead before).head = head at *
  unfold ResponseRule responseFraming at hrule
  have hbodiless : bodiless head.status = true ↔ head.status = 204 ∨ head.status = 304 := by
    simp [bodiless]
  simp only [List.mem_cons,List.not_mem_nil,or_false] at hrule
  constructor
  · intro hb
    rw [if_pos (by rw [hbodiless] at hb; omega)] at hrule
    obtain rfl := Option.some.inj hrule
    exact hfits
  · intro hb
    have hne : ¬(head.status = 204 ∨ head.status = 304) := by
      rw [← hbodiless,hb]
      exact Bool.false_ne_true
    rw [if_neg (by omega),hte,if_neg Bool.false_ne_true] at hrule
    split at hrule
    next hany =>
      obtain ⟨n,hn,rfl⟩ := Option.map_eq_some_iff.mp hrule
      rw [hn]
      unfold lengthFraming at hfits
      split at hfits
      next hzero =>
        have hnil : (parsed ll ResponseHead (before ++ rest)).scratch = [] := hfits
        rw [hnil,hzero]
        rfl
      next => rw [hfits.2 rfl]
    next =>
      rw [if_neg (by omega)] at hrule
      obtain rfl := Option.some.inj hrule
      cases hfits

/-- Where a complete response without codings has the length that the head shown to the filters
announces: always, unless its status says that it has no body. -/
theorem contentLength_iff (hlaw : ll.FollowsLengthRule ResponseHead ResponseRule) {input : Bytes}
    (hresponse : FinalResponse ll input)
    (hdone : (parsed ll ResponseHead input).messageDone = true) (hpre : before <+: input)
    (hd : (parsed ll ResponseHead before).headerDone = true)
    (hcoded : (parsed ll ResponseHead before).head.headers.any isTransferEncoding = false) :
    contentLength (parsed ll ResponseHead before).head.headers =
        some (parsed ll ResponseHead input).scratch.length ↔
      (bodiless (parsed ll ResponseHead before).head.status = true →
        contentLength (parsed ll ResponseHead before).head.headers = some 0) := by
  obtain ⟨block,rest,rfl,hblock⟩ := exists_block (H := ResponseHead) hd
  obtain ⟨more,rfl⟩ := hpre
  have halone := hresponse.alone
  have hstatus := hresponse.final block ⟨rest ++ more,(List.append_assoc _ _ _).symm⟩ hblock.ends
  have halone' : Alone ll (block ++ rest) := halone.of_prefix (List.prefix_append _ _)
  rw [List.append_assoc] at halone hdone ⊢
  have hok := hlaw.accepted_of_done halone hblock.ends hdone
  obtain ⟨trailers,hheaders,-⟩ := headers_of_block (H := ResponseHead) hblock
  have huncoded : (parsed ll ResponseHead block).head.headers.any isTransferEncoding = false := by
    change (LawfulHead.headers (parsed _ ResponseHead (block ++ rest)).head).any _ = false at hcoded
    rw [hheaders,List.any_append,Bool.or_eq_false_iff] at hcoded
    exact hcoded.1
  have hlen := length_of_done hlaw halone hblock.ends hdone hstatus huncoded
  rw [headers_of_uncoded hlaw halone' hblock.ends hok huncoded,status_of_block halone' hblock.ends]
  cases hb : bodiless (parsed ll ResponseHead block).head.status with
  | true => simp [hlen.1 hb]
  | false => simp [hlen.2 hb]

end

namespace HttpSession
variable {G : Gateway}

/-- A cycle that was answered in full has written the head and the body behind it, chunk by
chunk if the head mentions the coding. -/
theorem relayedWhole_iff_readBody (hnd : G.filterChain.NoData) {log : List Effect}
    (hc : Conforms G log) (ha : (cycleOf log).Answered G) {head : ResponseHead}
    (hhead : (cycleOf log).response.head = some head) {method : Bytes}
    (hm : method ≠ ascii "HEAD" ∧ method ≠ ascii "CONNECT") :
    RelayedWhole G method (cycleOf log) ↔
      if bodiless head.status then hasChunkedEncoding head.headers = false ∧
        ((cycleOf log).response.parse G.responseLlhttp).scratch = []
      else if head.headers.any isTransferEncoding then finallyChunked head.headers = true
      else contentLength head.headers =
        some ((cycleOf log).response.parse G.responseLlhttp).scratch.length := by
  have hb := booked_response hc ha.notDirect
  have hu := (untouched_of_conforms hnd hc).2
  have hissued := issued_of_answered hc ha hhead
  have hbody : encodeAll (hasChunkedEncoding head.headers) (cycleOf log).response.provided =
      if hasChunkedEncoding head.headers then
        (pieces (cycleOf log).response.provided).flatMap sizedChunk ++ lastChunk
      else ((cycleOf log).response.parse G.responseLlhttp).scratch := by
    split
    next hcoded => rw [hcoded,encodeAll_chunked ha.final hb.only]
    next hcoded =>
      rw [Bool.eq_false_iff.mpr hcoded,encodeAll_verbatim]
      exact hb.payload_final hu ha.final
  rw [← readBody_iff hm (fun _ => ne_nil_of_mem_pieces)
    ((flatten_pieces _).trans (hb.payload_final hu ha.final)) hbody]
  constructor
  · rintro ⟨head',hh,hcomplete⟩
    obtain rfl := Option.some.inj (hhead.symm.trans hh)
    rwa [hissued,completeResponse_iff] at hcomplete
  · intro hw
    refine ⟨_,hhead,?_⟩
    rwa [hissued,completeResponse_iff]

/-- A chunked response in two pieces. -/
def chunkedResponseRun : HttpSession (.strict [] 128) :=
  strictRun [] 128 [.read (ascii "GET / HTTP/1.1\r\n\r\n"),.connected 7,.wrote 42,
    .read (ascii "HTTP/1.1 200 OK\r\nTransfer-Encoding: chunked\r\n\r\n2\r\nab\r\n"),.wrote 80,
    .read (ascii "0\r\n\r\n"),.wrote 5]

/-- Its only finished cycle. -/
def chunkedResponseLog : List Effect := chunkedResponseRun.past.flatten

/-- A response without body that claims to be chunked. -/
def bodilessRun : HttpSession (.strict [] 128) :=
  strictRun [] 128 [.read (ascii "GET / HTTP/1.1\r\n\r\n"),.connected 7,.wrote 42,
    .read (ascii "HTTP/1.1 204 No Content\r\nTransfer-Encoding: chunked\r\n\r\n"),.wrote 84]

def bodilessLog : List Effect := bodilessRun.past.flatten

end HttpSession
end PerCoreShard
