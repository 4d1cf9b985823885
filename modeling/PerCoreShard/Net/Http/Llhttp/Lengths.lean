import PerCoreShard.Net.Http.Llhttp.Message
import PerCoreShard.Net.Http.Reader

/-! How the parser finds the end of a body. It decides on that with the byte that completes the
header block, from the fields it has read until then; trailer fields come too late. Its state
table is a parameter, so the decision is told by what the parser makes of the bytes behind the
block. -/
namespace PerCoreShard
open Library

namespace Llhttp
variable (ll : Llhttp)

/-- The callbacks that `rest` adds when it is read behind `before`. -/
def behind (before rest : Bytes) : List Callback :=
  (ll.run ll.start (before ++ rest)).out.drop (ll.run ll.start before).out.length

/-- The callbacks of the last byte. -/
def latest (input : Bytes) : List Callback :=
  (ll.run ll.start input).out.drop (ll.run ll.start input.dropLast).out.length

/-- The last byte completes a header block. -/
def HeadEnds (input : Bytes) : Prop := (ll.latest input).any Callback.endsHead = true

instance (input : Bytes) : Decidable (ll.HeadEnds input) := inferInstanceAs (Decidable (_ = true))

/-- A header block was accepted, and there is a body to come. -/
structure AwaitsBody (before : Bytes) : Prop where
  open_ : (ll.latest before).any Callback.ends = false
  accepted : (ll.run ll.start before).failed = false

/-- How the parser reads what follows the header block at the end of `before`. -/
def ReadsBody (before : Bytes) : BodyFraming → Prop
  | .empty => (ll.latest before).any Callback.ends = true
  | .length n => ll.AwaitsBody before ∧ ∀ body, body.length ≤ n →
    bodyOf (ll.behind before body) = body ∧ (ll.behind before body).all Callback.inBody = true ∧
      ((ll.behind before body).any Callback.ends = true ↔ body.length = n)
  | .chunked => ll.AwaitsBody before ∧ ∀ chunks : List Bytes, (∀ chunk ∈ chunks, chunk ≠ []) →
    bodyOf (ll.behind before (chunks.flatMap sizedChunk ++ lastChunk)) = chunks.flatten ∧
      (ll.behind before (chunks.flatMap sizedChunk ++ lastChunk)).any Callback.ends = true
  | .untilClose => ll.AwaitsBody before ∧ ∀ body,
    bodyOf (ll.behind before body) = body ∧ (ll.behind before body).all Callback.inBody = true ∧
      (ll.behind before body).any Callback.ends = false

theorem out_behind (before rest : Bytes) : (ll.run ll.start (before ++ rest)).out =
    (ll.run ll.start before).out ++ ll.behind before rest := by
  obtain ⟨more,hmore⟩ := ll.run_out_prefix ll.start (List.prefix_append before rest)
  rw [behind,← hmore,List.drop_left]

theorem behind_append (before rest more : Bytes) :
    ll.behind before (rest ++ more) = ll.behind before rest ++ ll.behind (before ++ rest) more := by
  have h := ll.out_behind before (rest ++ more)
  rw [← List.append_assoc,out_behind,out_behind,List.append_assoc] at h
  exact (List.append_cancel_left h).symm

theorem behind_nil (before : Bytes) : ll.behind before [] = [] := by
  simp [behind]

theorem latest_concat (input : Bytes) (b : UInt8) : ll.latest (input ++ [b]) = ll.behind input [b] := by
  rw [latest,List.dropLast_concat,behind]

theorem behind_of_accepted {before : Bytes} (h : (ll.run ll.start before).failed = false)
    (rest : Bytes) : ll.behind before rest = (ll.run (ll.run ll.start before).state rest).out := by
  rw [behind,ll.run_append_of_not_failed rest h,List.drop_left]

theorem behind_of_failed {before : Bytes} (h : (ll.run ll.start before).failed = true)
    (rest : Bytes) : ll.behind before rest = [] := by
  rw [behind,ll.run_append_of_failed rest h,List.drop_length]

/-- A header block ends with a byte of its own. -/
theorem eq_concat_of_headEnds {before : Bytes} (h : ll.HeadEnds before) :
    ∃ init b, before = init ++ [b] := by
  induction before using List.reverseRecOn with
  | nil => cases h
  | append_singleton init b _ => exact ⟨init,b,rfl⟩

variable {ll}

theorem ReadsBody.not_awaits {before : Bytes} (h : ll.ReadsBody before .empty) :
    ¬ll.AwaitsBody before := by
  intro ha
  rw [ReadsBody,ha.open_] at h
  cases h

theorem ReadsBody.ends {before body : Bytes} (h : ll.ReadsBody before (.length body.length)) :
    (ll.behind before body).any Callback.ends = true :=
  (h.2 body le_rfl).2.2.mpr rfl

theorem ReadsBody.length_pos {before : Bytes} {n : ℕ} (h : ll.ReadsBody before (.length n)) :
    0 < n := by
  rw [Nat.pos_iff_ne_zero]
  rintro rfl
  have hend : (ll.behind before []).any Callback.ends = true := h.ends
  rw [behind_nil] at hend
  cases hend

theorem ReadsBody.length_le {before : Bytes} {n m : ℕ} (hn : ll.ReadsBody before (.length n))
    (hm : ll.ReadsBody before (.length m)) : m ≤ n := by
  by_contra hlt
  have hlen : (List.replicate n (0 : UInt8)).length = n := List.length_replicate
  have heq := (hm.2 (List.replicate n 0) (by omega)).2.2.mp (hlen ▸ hn).ends
  omega

theorem ReadsBody.ends_lastChunk {before : Bytes} (h : ll.ReadsBody before .chunked) :
    bodyOf (ll.behind before lastChunk) = [] ∧
      (ll.behind before lastChunk).any Callback.ends = true :=
  h.2 [] (by simp)

/-- The first byte of the last chunk would be a byte of the body. -/
theorem ReadsBody.not_chunked {before : Bytes} {n : ℕ} (h : ll.ReadsBody before (.length n)) :
    ¬ll.ReadsBody before .chunked := by
  intro hc
  have hone := (h.2 (ascii "0") h.length_pos).1
  have hnone := hc.ends_lastChunk.1
  rw [show lastChunk = ascii "0" ++ (crlf ++ crlf) from rfl,behind_append,bodyOf,
    List.flatMap_append,List.append_eq_nil_iff] at hnone
  rw [bodyOf,hnone.1] at hone
  cases hone

theorem ReadsBody.open_ {before : Bytes} (h : ll.ReadsBody before .untilClose) (body : Bytes) :
    (ll.behind before body).any Callback.ends ≠ true := by
  rw [(h.2 body).2.2]
  exact Bool.false_ne_true

/-- The parser reads on in one way only. -/
theorem ReadsBody.unique {before : Bytes} {f g : BodyFraming} (hf : ll.ReadsBody before f)
    (hg : ll.ReadsBody before g) : f = g := by
  have hlength : ∀ n, ll.ReadsBody before (.length n) → ¬ll.ReadsBody before .untilClose :=
    fun n hn hu => hu.open_ (List.replicate n 0)
      (show ll.ReadsBody before (.length _) by rwa [List.length_replicate]).ends
  cases f with
  | empty =>
    cases g with
    | empty => rfl
    | _ => exact absurd hg.1 hf.not_awaits
  | length n =>
    cases g with
    | empty => exact absurd hf.1 hg.not_awaits
    | length m => rw [(hg.length_le hf).antisymm (hf.length_le hg)]
    | chunked => exact absurd hg hf.not_chunked
    | untilClose => exact absurd hg (hlength n hf)
  | chunked =>
    cases g with
    | empty => exact absurd hf.1 hg.not_awaits
    | length m => exact absurd hf hg.not_chunked
    | chunked => rfl
    | untilClose => exact absurd hf.ends_lastChunk.2 (hg.open_ _)
  | untilClose =>
    cases g with
    | empty => exact absurd hf.1 hg.not_awaits
    | length m => exact absurd hf (hlength m hg)
    | chunked => exact absurd hg.ends_lastChunk.2 (hf.open_ _)
    | untilClose => rfl

/-- The header block at the end of `before` is that of the message `rest` is a part of. -/
structure Block (ll : Llhttp) (before rest : Bytes) : Prop where
  ends : ll.HeadEnds before
  same : ((ll.behind before rest).all fun c => c != .onMessageBegin) = true

instance (before rest : Bytes) : Decidable (ll.Block before rest) :=
  decidable_of_iff (ll.HeadEnds before ∧
    ((ll.behind before rest).all fun c => c != .onMessageBegin) = true)
    ⟨fun h => ⟨h.1,h.2⟩,fun h => ⟨h.ends,h.same⟩⟩

/-- The parser goes by a rule about the fields of the header block, and a body begins behind
the byte that completes it. -/
structure FollowsLengthRule (ll : Llhttp) (H : Type) [ParsedHead H]
    (rule : H → BodyFraming → Prop) : Prop where
  separate : ∀ before, ll.HeadEnds before → bodyOf (ll.latest before) = []
  reads : ∀ before, ll.HeadEnds before → (ll.run ll.start before).failed = false →
    ∃ framing, rule (LlhttpParser.parsed ll H before).head framing ∧ ll.ReadsBody before framing
  refused : ∀ before, ll.HeadEnds before → (ll.run ll.start before).failed = true →
    (ll.latest before).any Callback.ends = false

end Llhttp

namespace LlhttpParser
variable {ll : Llhttp} {H : Type} [ParsedHead H]

theorem ends_of_messageDone {input : Bytes} (h : (parsed ll H input).messageDone = true) :
    (ll.run ll.start input).out.any Callback.ends = true :=
  List.any_eq_true.mpr ⟨_,messageDone_foldl (p := create ll H) rfl h,rfl⟩

theorem oneMessage_drop {cs ds : List Callback} (h : oneMessage (cs ++ ds) = true)
    (hc : cs.any Callback.ends = false) : oneMessage ds = true := by
  induction cs with
  | nil => exact h
  | cons c cs ih =>
    rw [List.any_cons,Bool.or_eq_false_iff] at hc
    simp only [List.cons_append,oneMessage,hc.1,Bool.false_eq_true,if_false] at h
    exact ih h hc.2

/-- Behind a complete head there is only the rest of its message. -/
theorem Alone.same {before rest : Bytes} (h : Alone ll (before ++ rest))
    (hd : (parsed ll H before).headerDone = true) :
    ((ll.behind before rest).all fun c => c != .onMessageBegin) = true := by
  have hord := ll.ordered (before ++ rest)
  unfold Alone at h
  rw [ll.out_behind] at h hord
  cases hm : (parsed ll H before).messageDone with
  | true => exact notBegin_of_oneMessage h (ends_of_messageDone hm)
  | false =>
    rw [Section.follow_append,section_of_flags hd hm,Option.bind_some] at hord
    refine notBegin_of_follow (by decide) hord (oneMessage_drop h ?_)
    rw [Bool.eq_false_iff]
    intro he
    have hbefore : oneMessage (ll.run ll.start before).out = true :=
      oneMessage_of_prefix (List.prefix_append _ _) h
    have hdone : (parsed ll H before).messageDone = true :=
      messageDone_of_ends (p := create ll H) hbefore he
    rw [hm] at hdone
    cases hdone

theorem Section.body_of_endsHead {s u : Section} {c : Callback} (h : s.after c = some u)
    (hc : c.endsHead = true) : u = .body := by
  cases c with
  | onHeadersComplete keepAlive =>
    cases s <;> cases h
    rfl
  | _ => cases hc

theorem Section.body_of_body {u : Section} {c : Callback} (h : Section.body.after c = some u)
    (hc : c.ends = false) : u = .body := by
  cases c with
  | onMessageComplete keepAlive => cases hc
  | _ => cases h <;> rfl

theorem Section.not_head_of_same {s u : Section} {c : Callback} (hs : s ≠ .head)
    (h : s.after c = some u) (hsame : (c != .onMessageBegin) = true) :
    u ≠ .head ∧ c.endsHead = false := by
  cases s with
  | head => exact absurd rfl hs
  | idle =>
    cases c with
    | onMessageBegin => exact absurd hsame (by decide)
    | _ => cases h
  | body => cases c <;> cases h <;> exact ⟨by decide,rfl⟩

/-- A message has one header block. -/
theorem not_endsHead_of_same {cs : List Callback} {s : Section} (hs : s ≠ .head)
    (h : (s.follow cs).isSome = true) (hsame : (cs.all fun c => c != .onMessageBegin) = true) :
    cs.any Callback.endsHead = false := by
  induction cs generalizing s with
  | nil => rfl
  | cons c cs ih =>
    obtain ⟨t,ht⟩ := Option.isSome_iff_exists.mp h
    simp only [Section.follow,Option.bind_eq_some_iff] at ht
    obtain ⟨u,hu,ht⟩ := ht
    rw [List.all_cons,Bool.and_eq_true] at hsame
    obtain ⟨hhead,hc⟩ := Section.not_head_of_same hs hu hsame.1
    rw [List.any_cons,hc,Bool.false_or]
    exact ih hhead (by rw [ht]; rfl) hsame.2

theorem headerDone_of_endsHead {cs : List Callback} {p : LlhttpParser ll H} {s : Section}
    (h : (s.follow cs).isSome = true) (hone : oneMessage cs = true)
    (he : cs.any Callback.endsHead = true) : (cs.foldl dispatch p).headerDone = true := by
  induction cs generalizing p s with
  | nil => cases he
  | cons c cs ih =>
    obtain ⟨t,ht⟩ := Option.isSome_iff_exists.mp h
    simp only [Section.follow,Option.bind_eq_some_iff] at ht
    obtain ⟨u,hu,ht⟩ := ht
    simp only [oneMessage] at hone
    rw [List.any_cons] at he
    rw [List.foldl_cons]
    split at hone
    next hends =>
      have hu' := Section.idle_of_ends hu hends
      subst hu'
      rw [nil_of_idle (by rw [ht]; rfl) hone] at he
      cases c with
      | onMessageComplete keepAlive => cases he
      | _ => cases hends
    next =>
      cases hc : c.endsHead with
      | true =>
        obtain rfl := Section.body_of_endsHead hu hc
        refine headerDone_of_body (by rw [ht]; rfl) hone ?_
        cases c with
        | onHeadersComplete keepAlive => rfl
        | _ => cases hc
      | false =>
        rw [hc,Bool.false_or] at he
        exact ih (by rw [ht]; rfl) hone he

/-- Without the end of a header block the head is complete only if it was so before. -/
theorem same_of_headerDone {cs : List Callback} {p : LlhttpParser ll H}
    (hn : cs.any Callback.endsHead = false) (h : (cs.foldl dispatch p).headerDone = true) :
    (cs.all fun c => c != .onMessageBegin) = true ∧ p.headerDone = true := by
  induction cs generalizing p with
  | nil => exact ⟨rfl,h⟩
  | cons c cs ih =>
    rw [List.any_cons,Bool.or_eq_false_iff] at hn
    obtain ⟨hsame,hp⟩ := ih hn.2 h
    rw [List.all_cons,hsame,Bool.and_true]
    cases c with
    | onMessageBegin => cases hp
    | onHeadersComplete keepAlive => cases hn.1
    | _ => exact ⟨rfl,hp⟩

/-- Where the header block of the message ends that `input` is in. -/
theorem exists_block {input : Bytes} (h : (parsed ll H input).headerDone = true) :
    ∃ before rest, input = before ++ rest ∧ ll.Block before rest := by
  induction input using List.reverseRecOn with
  | nil => cases h
  | append_singleton init b ih =>
    by_cases he : ll.HeadEnds (init ++ [b])
    · exact ⟨_,[],(List.append_nil _).symm,he,by rw [ll.behind_nil]; rfl⟩
    · have hout := ll.out_behind init [b]
      rw [Llhttp.HeadEnds,ll.latest_concat,Bool.not_eq_true] at he
      change ((ll.run ll.start (init ++ [b])).out.foldl dispatch (create ll H)).headerDone = true at h
      rw [hout,List.foldl_append] at h
      obtain ⟨hsame,hinit⟩ := same_of_headerDone he h
      obtain ⟨before,rest,rfl,hb⟩ := ih hinit
      refine ⟨before,rest ++ [b],List.append_assoc _ _ _,hb.ends,?_⟩
      rw [ll.behind_append,List.all_append,hb.same,Bool.true_and]
      exact hsame

theorem Alone.not_endsHead {before rest : Bytes} (h : Alone ll (before ++ rest))
    (hd : (parsed ll H before).headerDone = true) :
    (ll.behind before rest).any Callback.endsHead = false := by
  have hord := ll.ordered (before ++ rest)
  obtain ⟨t,ht⟩ := Option.isSome_iff_exists.mp (ll.ordered before)
  rw [ll.out_behind,Section.follow_append,ht,Option.bind_some] at hord
  have hflags : (parsed ll H before).Flags t := flags_parsed ht
  have hhead : t ≠ .head := by
    rintro rfl
    rw [hflags.1] at hd
    cases hd
  exact not_endsHead_of_same hhead hord (h.same hd)

/-- Up to the byte that completes the header block the head is not complete. -/
theorem Alone.headerDone_before {init : Bytes} {b : UInt8} (h : Alone ll (init ++ [b]))
    (he : ll.HeadEnds (init ++ [b])) : (parsed ll H init).headerDone = false := by
  rw [Bool.eq_false_iff]
  intro hd
  rw [Llhttp.HeadEnds,ll.latest_concat,h.not_endsHead hd] at he
  cases he

theorem Alone.headerDone_of_headEnds {before : Bytes} (h : Alone ll before)
    (he : ll.HeadEnds before) : (parsed ll H before).headerDone = true := by
  obtain ⟨init,b,rfl⟩ := ll.eq_concat_of_headEnds he
  rw [Llhttp.HeadEnds,ll.latest_concat] at he
  refine headerDone_of_endsHead (p := create ll H) (ll.ordered _) h ?_
  rw [ll.out_behind,List.any_append,he,Bool.or_true]

/-- The header block of the only message ends in one place. -/
theorem Alone.headEnds_unique {before before' input : Bytes} (h : Alone ll input)
    (hp : before <+: input) (hp' : before' <+: input) (he : ll.HeadEnds before)
    (he' : ll.HeadEnds before') : before = before' := by
  have key : ∀ {xs rest : Bytes}, Alone ll (xs ++ rest) → ll.HeadEnds xs →
      ll.HeadEnds (xs ++ rest) → rest = [] := by
    intro xs rest halone hxs hall
    induction rest using List.reverseRecOn with
    | nil => rfl
    | append_singleton rest b _ =>
      have hd : (parsed ll RequestHead xs).headerDone = true :=
        (halone.of_prefix (List.prefix_append _ _)).headerDone_of_headEnds hxs
      have hnone := halone.not_endsHead hd
      rw [ll.behind_append,List.any_append,Bool.or_eq_false_iff] at hnone
      rw [Llhttp.HeadEnds,← List.append_assoc,ll.latest_concat,hnone.2] at hall
      cases hall
  rcases List.prefix_or_prefix_of_prefix hp hp' with ⟨rest,rfl⟩ | ⟨rest,rfl⟩
  · rw [key (h.of_prefix hp') he he',List.append_nil]
  · rw [key (h.of_prefix hp) he' he,List.append_nil]

theorem Alone.block {before rest : Bytes} (h : Alone ll (before ++ rest)) (he : ll.HeadEnds before) :
    ll.Block before rest :=
  ⟨he,h.same (H := RequestHead)
    ((h.of_prefix (List.prefix_append _ _)).headerDone_of_headEnds he)⟩

/-- Nothing follows the end of the only message. -/
theorem Alone.behind_ended {before rest : Bytes} (h : Alone ll (before ++ rest))
    (he : (ll.run ll.start before).out.any Callback.ends = true) : ll.behind before rest = [] := by
  have hbefore : oneMessage (ll.run ll.start before).out = true :=
    h.of_prefix (List.prefix_append _ _)
  have hdone : (parsed ll RequestHead before).messageDone = true :=
    messageDone_of_ends (p := create ll RequestHead) hbefore he
  rw [Llhttp.behind,run_out_of_messageDone (List.prefix_append _ _) h hdone,List.drop_length]

/-- The message has not ended before the byte that completes its header block. -/
theorem Alone.open_before {init : Bytes} {b : UInt8} (h : Alone ll (init ++ [b]))
    (he : ll.HeadEnds (init ++ [b])) : (ll.run ll.start init).out.any Callback.ends = false := by
  rw [Bool.eq_false_iff]
  intro hends
  rw [Llhttp.HeadEnds,ll.latest_concat,h.behind_ended hends] at he
  cases he

theorem body_of_open {cs : List Callback} {s t : Section} (h : s.follow cs = some t)
    (hs : s = .body ∨ cs.any Callback.endsHead = true) (hopen : cs.any Callback.ends = false) :
    t = .body := by
  induction cs generalizing s with
  | nil =>
    obtain rfl : s = .body := hs.resolve_right Bool.false_ne_true
    exact (Option.some.inj h).symm
  | cons c cs ih =>
    simp only [Section.follow,Option.bind_eq_some_iff] at h
    obtain ⟨u,hu,ht⟩ := h
    rw [List.any_cons,Bool.or_eq_false_iff] at hopen
    rw [List.any_cons,Bool.or_eq_true,← or_assoc] at hs
    refine ih ht (hs.imp_left fun hc => ?_) hopen.2
    rcases hc with rfl | hc
    · exact Section.body_of_body hu hopen.1
    · exact Section.body_of_endsHead hu hc

theorem idle_of_ended {cs : List Callback} {t : Section} (h : Section.body.follow cs = some t)
    (hsame : (cs.all fun c => c != .onMessageBegin) = true) (he : cs.any Callback.ends = true) :
    t = .idle := by
  induction cs with
  | nil => cases he
  | cons c cs ih =>
    simp only [Section.follow,Option.bind_eq_some_iff] at h
    obtain ⟨u,hu,ht⟩ := h
    rw [List.all_cons,Bool.and_eq_true] at hsame
    rw [List.any_cons] at he
    cases hc : c.ends with
    | true =>
      have hu' := Section.idle_of_ends hu hc
      subst hu'
      rw [nil_of_idle (by rw [ht]; rfl) hsame.2] at ht
      exact (Option.some.inj ht).symm
    | false =>
      rw [hc,Bool.false_or] at he
      obtain rfl := Section.body_of_body hu hc
      exact ih ht hsame.2 he

/-- A body that is not chunked has no trailer fields behind it. -/
theorem inBody_of_readsBody {before rest : Bytes} (hb : ll.Block before rest)
    {framing : BodyFraming} (hr : ll.ReadsBody before framing) (hne : framing ≠ .empty)
    (hc : framing ≠ .chunked) : (ll.behind before rest).all Callback.inBody = true := by
  cases framing with
  | empty => exact absurd rfl hne
  | chunked => exact absurd rfl hc
  | untilClose => exact (hr.2 rest).2.1
  | length n =>
    rcases le_or_gt rest.length n with hle | hlt
    · exact (hr.2 rest hle).2.1
    · obtain ⟨-,hin,hend⟩ := hr.2 (rest.take n) (by simp)
      have hlen : (rest.take n).length = n := by rw [List.length_take]; omega
      have hsplit := ll.behind_append before (rest.take n) (rest.drop n)
      rw [List.take_append_drop] at hsplit
      have hsame := hb.same
      rw [hsplit,List.all_append,Bool.and_eq_true] at hsame
      have hord := ll.ordered (before ++ rest.take n ++ rest.drop n)
      obtain ⟨t,ht⟩ := Option.isSome_iff_exists.mp (ll.ordered before)
      obtain ⟨init,b,rfl⟩ := ll.eq_concat_of_headEnds hb.ends
      have hbody : t = .body := by
        obtain ⟨u,hu⟩ := Option.isSome_iff_exists.mp (ll.ordered init)
        have hends := hb.ends
        have hopen := hr.1.open_
        rw [Llhttp.HeadEnds,ll.latest_concat] at hends
        rw [ll.latest_concat] at hopen
        rw [ll.out_behind,Section.follow_append,hu,Option.bind_some] at ht
        exact body_of_open ht (.inr hends) hopen
      subst hbody
      rw [ll.out_behind,ll.out_behind,Section.follow_append,Section.follow_append,ht,
        Option.bind_some] at hord
      cases hv : Section.body.follow (ll.behind (init ++ [b]) (rest.take n)) with
      | none =>
        rw [hv] at hord
        cases hord
      | some v =>
        rw [hv,idle_of_ended hv hsame.1 (hend.mpr hlen)] at hord
        rw [hsplit,nil_of_idle hord hsame.2,List.append_nil]
        exact hin

/-- The fields of a head that was parsed together with what follows its header block. -/
theorem headers_of_block {H : Type} [LawfulHead H] {before rest : Bytes} (hb : ll.Block before rest) :
    ∃ trailers, LawfulHead.headers (parsed ll H (before ++ rest)).head =
      LawfulHead.headers (parsed ll H before).head ++ trailers ∧
      ((ll.behind before rest).all Callback.inBody = true → trailers = []) := by
  have hfold := headers_foldl (H := H) ((ll.run ll.start before).out.foldl dispatch (create ll H))
    hb.same
  rw [← List.foldl_append,← ll.out_behind] at hfold
  refine ⟨_,hfold,fun hin => ?_⟩
  have hnone : ∀ (cs : List Callback) (name value : Bytes), cs.all Callback.inBody = true →
      fieldsIn name value cs = [] := by
    intro cs
    induction cs with
    | nil => exact fun _ _ _ => rfl
    | cons c cs ih =>
      intro name value hcs
      rw [List.all_cons,Bool.and_eq_true] at hcs
      cases c <;> first | exact ih _ _ hcs.2 | cases hcs.1
  exact hnone _ _ _ hin

end LlhttpParser

/-- What a framing says about the part of a body that was read, and about all of it. -/
def BodyFraming.Fits : BodyFraming → Bytes → Bool → Prop
  | .empty,body,_ => body = []
  | .length n,body,done => body.length ≤ n ∧ (done = true → body.length = n)
  | .chunked,_,_ => True
  | .untilClose,_,done => done = false

namespace Llhttp.FollowsLengthRule
open LlhttpParser
variable {ll : Llhttp} {H : Type} [ParsedHead H] {rule : H → BodyFraming → Prop}
  {before rest : Bytes}

/-- The body of the only message comes from the bytes behind its header block, and so does its
end, unless it has no body. -/
theorem behind_block (hlaw : ll.FollowsLengthRule H rule) (h : Alone ll (before ++ rest))
    (he : ll.HeadEnds before) :
    (parsed ll H (before ++ rest)).scratch = bodyOf (ll.behind before rest) ∧
      ((parsed ll H (before ++ rest)).messageDone = true →
        (ll.latest before).any Callback.ends = false →
        (ll.behind before rest).any Callback.ends = true) := by
  obtain ⟨init,b,rfl⟩ := ll.eq_concat_of_headEnds he
  have hbefore := h.of_prefix (List.prefix_append _ rest)
  have hinit : bodyOf (ll.run ll.start init).out = [] := by
    rw [← parsed_scratch (H := H)]
    exact (hbefore.of_prefix (List.prefix_append _ _)).scratch_of_headerDone
      (hbefore.headerDone_before he)
  have hlatest := hlaw.separate _ he
  rw [ll.latest_concat] at hlatest
  constructor
  · rw [parsed_scratch,ll.out_behind,ll.out_behind,bodyOf,List.flatMap_append,List.flatMap_append]
    change bodyOf _ ++ bodyOf _ ++ _ = _
    rw [hinit,hlatest]
    rfl
  · intro hdone hopen
    have hends := ends_of_messageDone hdone
    rw [ll.latest_concat] at hopen
    rw [ll.out_behind,ll.out_behind,List.any_append,List.any_append,hbefore.open_before he,hopen,
      Bool.false_or,Bool.false_or] at hends
    exact hends

/-- A message that has come to its end was accepted. -/
theorem accepted_of_done (hlaw : ll.FollowsLengthRule H rule) (h : Alone ll (before ++ rest))
    (he : ll.HeadEnds before) (hdone : (parsed ll H (before ++ rest)).messageDone = true) :
    (ll.run ll.start before).failed = false := by
  rw [Bool.eq_false_iff]
  intro hf
  have hends := (hlaw.behind_block h he).2 hdone (hlaw.refused before he hf)
  rw [ll.behind_of_failed hf] at hends
  cases hends

theorem fits_of_readsBody (hlaw : ll.FollowsLengthRule H rule) (h : Alone ll (before ++ rest))
    (he : ll.HeadEnds before) {framing : BodyFraming} (hr : ll.ReadsBody before framing) :
    framing.Fits (parsed ll H (before ++ rest)).scratch (parsed ll H (before ++ rest)).messageDone := by
  obtain ⟨hbody,hends⟩ := hlaw.behind_block h he
  rw [hbody]
  have hout : ∀ more, (ll.behind before more).any Callback.ends = true →
      (ll.run ll.start (before ++ more)).out.any Callback.ends = true := fun more hm => by
    rw [ll.out_behind,List.any_append,hm,Bool.or_true]
  cases framing with
  | empty =>
    have hend : (ll.run ll.start before).out.any Callback.ends = true := by
      obtain ⟨init,b,rfl⟩ := ll.eq_concat_of_headEnds he
      have hlatest : (ll.latest (init ++ [b])).any Callback.ends = true := hr
      rw [ll.latest_concat] at hlatest
      rw [ll.out_behind,List.any_append,hlatest,Bool.or_true]
    rw [h.behind_ended hend]
    rfl
  | length n =>
    obtain ⟨hopen,hread⟩ := hr
    rcases le_or_gt rest.length n with hle | hlt
    · obtain ⟨hrest,-,hend⟩ := hread rest hle
      rw [hrest]
      exact ⟨hle,fun hdone => hend.mp (hends hdone hopen.open_)⟩
    · -- the message ends with the byte that makes up its length
      obtain ⟨htake,-,hend⟩ := hread (rest.take n) (by simp)
      have hlen : (rest.take n).length = n := by rw [List.length_take]; omega
      have hsplit : before ++ rest = (before ++ rest.take n) ++ rest.drop n := by
        rw [List.append_assoc,List.take_append_drop]
      rw [hsplit] at h
      have hnone := h.behind_ended (hout _ (hend.mpr hlen))
      have hall : bodyOf (ll.behind before rest) = rest.take n := by
        conv_lhs => rw [← List.take_append_drop n rest,ll.behind_append,hnone,List.append_nil]
        exact htake
      rw [hall]
      exact ⟨hlen.le,fun _ => hlen⟩
  | chunked => trivial
  | untilClose =>
    obtain ⟨hopen,hread⟩ := hr
    rw [BodyFraming.Fits,Bool.eq_false_iff]
    intro hdone
    have hend := hends hdone hopen.open_
    rw [(hread rest).2.2] at hend
    cases hend

/-- What was read of the only message fits the framing its header block gives it. -/
theorem fits (hlaw : ll.FollowsLengthRule H rule) (h : Alone ll (before ++ rest))
    (he : ll.HeadEnds before) {announced : BodyFraming}
    (hrule : ∀ framing, rule (parsed ll H before).head framing → framing = announced) :
    announced.Fits (parsed ll H (before ++ rest)).scratch
      (parsed ll H (before ++ rest)).messageDone := by
  cases hf : (ll.run ll.start before).failed with
  | false =>
    obtain ⟨framing,hframing,hreads⟩ := hlaw.reads before he hf
    exact hrule framing hframing ▸ hlaw.fits_of_readsBody h he hreads
  | true =>
    have hbody := (hlaw.behind_block h he).1
    rw [ll.behind_of_failed hf] at hbody
    have hdone : (parsed ll H (before ++ rest)).messageDone = false := by
      rw [Bool.eq_false_iff]
      intro hdone
      rw [hlaw.accepted_of_done h he hdone] at hf
      cases hf
    rw [hbody,hdone]
    cases announced with
    | empty => rfl
    | length n => exact ⟨Nat.zero_le n,fun hn => (by cases hn)⟩
    | chunked => trivial
    | untilClose => rfl

end Llhttp.FollowsLengthRule

/-- How the parser goes on behind the header block of a request. -/
def RequestRule (head : RequestHead) (framing : BodyFraming) : Prop :=
  if head.method = ascii "CONNECT" then framing = .empty
  else ∀ announced ∈ requestFraming head.headers, framing = announced

/-- How the parser goes on behind the header block of a response. -/
def ResponseRule (head : ResponseHead) (framing : BodyFraming) : Prop :=
  responseFraming head = some framing

theorem any_of_finallyChunked {headers : List Header} (h : finallyChunked headers = true) :
    headers.any isTransferEncoding = true :=
  any_of_hasChunkedEncoding (hasChunkedEncoding_of_finallyChunked h)

section
variable {head : ResponseHead}

/-- The chunked path is taken if and only if the final coding is `chunked`. -/
theorem finallyChunked_iff {framing : BodyFraming} (h : responseFraming head = some framing)
    (hne : framing ≠ .empty) : finallyChunked head.headers = true ↔ framing = .chunked := by
  unfold responseFraming at h
  split at h
  · exact absurd (Option.some.inj h).symm hne
  split at h
  next hte =>
    split at h
    · cases h
    split at h
    next hf => exact ⟨fun _ => (Option.some.inj h).symm,fun _ => hf⟩
    next hf =>
      obtain rfl := Option.some.inj h
      exact ⟨fun hf' => absurd hf' hf,fun hn => (by cases hn)⟩
  next hte =>
    refine ⟨fun hf => absurd (any_of_finallyChunked hf) hte,?_⟩
    rintro rfl
    split at h
    · obtain ⟨n,-,hn⟩ := Option.map_eq_some_iff.mp h
      unfold lengthFraming at hn
      split at hn <;> cases hn
    · split at h <;> cases h

/-- A body that is read until the upstream closes has no length. -/
theorem unsized_of_untilClose (h : responseFraming head = some .untilClose) :
    head.headers.any isContentLength = false := by
  unfold responseFraming at h
  split at h
  · cases h
  split at h
  · split at h
    · cases h
    next hc => exact Bool.eq_false_iff.mpr hc
  · split at h
    · obtain ⟨n,-,hn⟩ := Option.map_eq_some_iff.mp h
      unfold lengthFraming at hn
      split at hn <;> cases hn
    next hc => exact Bool.eq_false_iff.mpr hc

end

end PerCoreShard
