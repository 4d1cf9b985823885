import PerCoreShard.Net.Http.Llhttp.StrictLengths
import PerCoreShard.Session.ResponseRelay

/-! The promise to keep the connection to the client open, and the framing it rests on. The
parser goes by the final transfer coding in the header block, the serializer by the word
`chunked` in any `Transfer-Encoding` field of the head it is given. -/
namespace PerCoreShard
open Library LlhttpParser

theorem hasHeader_contentLength_congr {headers headers' : List Header}
    (h : framingFields headers = framingFields headers') :
    hasHeader headers (ascii "Content-Length") = hasHeader headers' (ascii "Content-Length") := by
  have hany : ∀ hs : List Header, hasHeader hs (ascii "Content-Length") =
      !((framingFields hs).filter isContentLength).isEmpty := by
    intro hs
    rw [filter_isContentLength,Bool.eq_iff_iff]
    simp [hasHeader,isContentLength,List.filter_eq_nil_iff]
  rw [hany,h,← hany]

namespace HttpSession
variable {G : Gateway}

/-- The response goes out in the framing it came in, and keep-alive is promised only if that
framing shows where it ends. -/
structure FramingAgrees (s : HttpSession G) (framing : BodyFraming) : Prop where
  chunked : s.responseSerializer.chunked = true ↔ framing = .chunked
  keepAlive : s.downstreamKeepAliveEffective = true → framing ≠ .untilClose

/-- What the chain makes of the head in the parser. -/
def filteredResponse (s : HttpSession G) : FilterHeaderResult × ResponseHead × G.Ctx :=
  G.filterChain.applyResponse s.theResponseParser.head s.filterCtx

/-- The head in the parser has not been filtered yet, and the filters are about to pass it on
with its framing fields. -/
structure AboutToPass (s : HttpSession G) : Prop where
  unfiltered : s.responseFiltered = false
  headerDone : s.theResponseParser.headerDone = true
  passed : s.filteredResponse.1 = .continue_
  fields : framingFields s.filteredResponse.2.1.headers =
    framingFields s.theResponseParser.head.headers

theorem filterResponseHead_of_pass {s : HttpSession G} (h : s.AboutToPass) :
    s.filterResponseHead.2.responseSerializer.chunked =
      hasChunkedEncoding s.theResponseParser.head.headers ∧
    s.filterResponseHead.2.downstreamKeepAliveEffective =
      (s.downstreamWantsKeepAlive &&
        (hasHeader s.theResponseParser.head.headers (ascii "Content-Length") ||
          hasChunkedEncoding s.theResponseParser.head.headers)) := by
  have hpassed : (G.filterChain.applyResponse s.theResponseParser.head s.filterCtx).1 =
    .continue_ := h.passed
  have hchunked := hasChunkedEncoding_congr h.fields
  have hlength := hasHeader_contentLength_congr h.fields
  unfold filteredResponse at hchunked hlength
  simp only [filterResponseHead,h.unfiltered,h.headerDone,Bool.not_false,Bool.true_and,if_true,
    hpassed]
  refine ⟨?_,?_⟩
  · exact (hasChunkedEncoding_setConnection _ _).trans hchunked
  · rw [← hchunked,← hlength]
    rfl

/-- The session when the first feed of a read from the upstream has returned, whatever the
filters have made of their context since the read was started. -/
def responseFed (s : HttpSession G) (ctx : G.Ctx) (raw : Bytes) : HttpSession G :=
  (({ s with
    pending := s.pending.erase .readResponse, filterCtx := ctx }.noteResponseRead raw).feedResponse
      raw).2

/-- The parser has then seen all that was read of the response. -/
theorem parser_responseFed {s : HttpSession G} (h : (system G).Reaches s)
    (hop : .readResponse ∈ s.pending) (ctx : G.Ctx) (raw : Bytes) :
    ∃ rest, (s.responseFed ctx raw).theResponseParser =
      { parsed G.responseLlhttp ResponseHead ((cycleOf s.log).response.input ++ raw) with
        scratch := rest } := by
  cases suspended_of_reaches h with
  | closed _ _ hidle _ =>
    rw [hidle] at hop
    cases hop
  | waiting op c live waits =>
    rw [live.pending,List.mem_singleton] at hop
    subst hop
    obtain ⟨ha,-,hm,-⟩ := waits
    have hparser := ha.response.agrees.parser
    rw [live.log]
    obtain ⟨more,-,hfeed⟩ := feed_parsed (H := ResponseHead) c.response.input
      s.theResponseParser.scratch raw hm
    refine ⟨s.theResponseParser.scratch ++ more,?_⟩
    rw [← hfeed]
    change (s.theResponseParser.feed raw).2 = _
    exact congrArg (fun p => (LlhttpParser.feed p raw).2) hparser

/-- The serializer and the promise go by the fields of the block and of the trailers behind it. -/
theorem framingAgrees_iff_of_block {s : HttpSession G} {block : ResponseHead}
    {trailers : List Header} {framing : BodyFraming} (hrule : responseFraming block = some framing)
    (hne : framing ≠ .empty) (hsame : framing ≠ .chunked → trailers = [])
    (hchunked : s.responseSerializer.chunked = hasChunkedEncoding (block.headers ++ trailers))
    {wants : Bool} (heffective : s.downstreamKeepAliveEffective =
      (wants && (hasHeader (block.headers ++ trailers) (ascii "Content-Length") ||
        hasChunkedEncoding (block.headers ++ trailers)))) :
    s.FramingAgrees framing ↔
      (hasChunkedEncoding block.headers = true → finallyChunked block.headers = true) := by
  have hfinal := finallyChunked_iff hrule hne
  have hmore : hasChunkedEncoding block.headers = true →
      hasChunkedEncoding (block.headers ++ trailers) = true := by
    intro hmention
    simp only [hasChunkedEncoding,List.any_append,Bool.or_eq_true] at hmention ⊢
    exact .inl hmention
  constructor
  · exact fun hagrees hmention => hfinal.mpr (hagrees.chunked.mp (hchunked.trans (hmore hmention)))
  · intro hcond
    by_cases hc : framing = .chunked
    · subst hc
      have hblock := hasChunkedEncoding_of_finallyChunked (hfinal.mpr rfl)
      exact ⟨iff_of_true (hchunked.trans (hmore hblock)) rfl,fun _ => by decide⟩
    · have hnone : hasChunkedEncoding block.headers = false := by
        rw [Bool.eq_false_iff]
        exact fun hm => hc (hfinal.mp (hcond hm))
      rw [hsame hc,List.append_nil,hnone] at hchunked heffective
      refine ⟨iff_of_false (by rw [hchunked]; exact Bool.false_ne_true) hc,?_⟩
      rintro hpromised rfl
      rw [heffective,Bool.or_false,Bool.and_eq_true] at hpromised
      have hany : block.headers.any isContentLength = true := hpromised.2
      rw [unsized_of_untilClose hrule] at hany
      cases hany

/-- A session that waits for the response to the request it has sent. -/
def answeredRun : HttpSession (.strict [] 128) :=
  strictRun [] 128 [.read (ascii "GET / HTTP/1.1\r\n\r\n"),.connected 7,.wrote 42]

/-- The response has come with a trailer field that names another coding. -/
def chunkedHead : Bytes :=
  ascii "HTTP/1.1 200 OK\r\nTransfer-Encoding: gzip, Chunked\r\n\r\n" ++
    ascii "1\r\na\r\n0\r\nTransfer-Encoding: gzip\r\n\r\n"

/-- The body behind this head ends when the connection does. -/
def gzippedHead : Bytes := ascii "HTTP/1.1 200 OK\r\nTransfer-Encoding: chunked, gzip\r\n\r\n"

end HttpSession
end PerCoreShard
