import PerCoreShard.Net.Http.Llhttp.Message
import PerCoreShard.Net.Http.Llhttp.Strict

/-! What a caller of an adapter gets out of a message, however it divides the message into calls
of `feed`. The header callbacks serve trailer fields as well, so the head that a caller sees
depends on how much of the message came with its last line. -/
namespace PerCoreShard
open Library

/-- The fields of the header section. -/
def headFields (cs : List Callback) : List Header :=
  fieldsIn [] [] (cs.takeWhile fun c => !c.endsHead)

/-- A field comes after the head. -/
def hasTrailerField : List Callback → Bool
  | [] => false
  | c::cs => if c.endsHead then cs.any Callback.endsField else hasTrailerField cs

theorem length_fieldsIn (name value : Bytes) (cs : List Callback) :
    (fieldsIn name value cs).length = cs.countP Callback.endsField := by
  induction cs generalizing name value with
  | nil => rfl
  | cons c cs ih =>
    rw [List.countP_cons]
    cases c <;> simp [fieldsIn,Callback.endsField,ih]

/-- A trailer field is one more than the fields of the header section. -/
theorem countP_headFields (cs : List Callback) :
    cs.countP Callback.endsField = (headFields cs).length ↔ hasTrailerField cs = false := by
  unfold headFields
  rw [length_fieldsIn]
  induction cs with
  | nil => simp [hasTrailerField]
  | cons c cs ih =>
    unfold hasTrailerField
    cases hc : c.endsHead with
    | true =>
      have hf : c.endsField = false := by cases c <;> simp_all [Callback.endsHead,Callback.endsField]
      simp [hc,hf,List.countP_eq_zero]
    | false =>
      simp only [List.takeWhile_cons,hc,Bool.not_false,if_true,List.countP_cons,
        Nat.add_right_cancel_iff,Bool.false_eq_true,if_false]
      exact ih

/-- `llhttp_should_keep_alive` reads the start line and flags that only fields set: while only
body comes it keeps its answer, and `on_message_complete` sees the last one. -/
structure Llhttp.Steady (ll : Llhttp) : Prop where
  kept : ∀ before b, (ll.run ll.start (before ++ [b])).failed = false →
    noTrailers (ll.run ll.start (before ++ [b])).out = true →
    Section.idle.follow (ll.run ll.start before).out = some .body →
    Section.idle.follow (ll.run ll.start (before ++ [b])).out = some .body →
    ll.shouldKeepAlive (ll.run ll.start (before ++ [b])).state =
      ll.shouldKeepAlive (ll.run ll.start before).state
  reported : ∀ before b shouldKeepAlive, (ll.run ll.start (before ++ [b])).failed = false →
    noTrailers (ll.run ll.start (before ++ [b])).out = true →
    Section.idle.follow (ll.run ll.start before).out = some .body →
    .onMessageComplete shouldKeepAlive ∈ (ll.run (ll.run ll.start before).state [b]).out →
    shouldKeepAlive = ll.shouldKeepAlive (ll.run ll.start before).state

/-- The input is one whole message that llhttp accepts. Besides the body only fields come after
the head, and a field that begins is completed. -/
structure Llhttp.Accepts (ll : Llhttp) (input : Bytes) : Prop where
  succeeds : (ll.run ll.start input).failed = false
  alone : LlhttpParser.Alone ll input
  whole : (ll.run ll.start input).out.any Callback.ends = true
  fields : hasTrailerField (ll.run ll.start input).out = false →
    noTrailers (ll.run ll.start input).out = true

/-- A call of `feed` and the sizes of the buffers given to `read_body` after it. -/
structure FeedCall where
  raw : Bytes
  reads : List ℕ
  deriving DecidableEq, Repr

/-- What a caller gets out of an adapter: `head()` and `should_keep_alive()` at the first return
of `feed` with `header_done()`, and everything it reads with `read_body`. -/
structure Results (H : Type) where
  seen : Option (H × Bool)
  body : Bytes
  deriving DecidableEq

/-- The calls feed the input piece by piece. -/
def Divides (calls : List FeedCall) (input : Bytes) : Prop :=
  (calls.map FeedCall.raw).flatten = input

namespace LlhttpParser
variable {ll : Llhttp} {H : Type} [ParsedHead H]

/-- Calls of `read_body`. -/
def readAll (p : LlhttpParser ll H) : List ℕ → Bytes × LlhttpParser ll H
  | [] => ([],p)
  | size::sizes =>
    let r := p.readBody size
    let rest := r.2.readAll sizes
    (r.1 ++ rest.1,rest.2)

/-- The results of the calls; what is left of the body is read at the end. -/
def results (p : LlhttpParser ll H) : List FeedCall → Results H
  | [] => ⟨none,(p.readBody p.scratch.length).1⟩
  | call::calls =>
    let q := (p.feed call.raw).2
    let r := q.readAll call.reads
    let rest := r.2.results calls
    ⟨if q.headerDone then some (q.head,q.shouldKeepAlive) else rest.seen,r.1 ++ rest.body⟩

omit [ParsedHead H] in
/-- Reading only moves bytes out of the scratch. -/
theorem readAll_eq (p : LlhttpParser ll H) (sizes : List ℕ) : ∃ rest,
    p.scratch = (p.readAll sizes).1 ++ rest ∧ (p.readAll sizes).2 = { p with scratch := rest } := by
  induction sizes generalizing p with
  | nil => exact ⟨p.scratch,rfl,rfl⟩
  | cons size sizes ih =>
    obtain ⟨rest,hs,hp⟩ := ih (p.readBody size).2
    refine ⟨rest,?_,hp⟩
    simp only [readAll,List.append_assoc,← hs]
    exact (List.take_append_drop size p.scratch).symm

/-- A finished adapter ignores what it is fed. -/
theorem results_of_messageDone {p : LlhttpParser ll H} (hm : p.messageDone = true)
    (calls : List FeedCall) : (p.results calls).body = p.scratch := by
  induction calls generalizing p with
  | nil => exact List.take_length
  | cons call calls ih =>
    have hfeed : (p.feed call.raw).2 = p := by simp [feed,hm]
    obtain ⟨rest,hs,hp⟩ := readAll_eq p call.reads
    simp only [results,hfeed,hp]
    rw [ih (p := { p with scratch := rest }) hm,hs]

section
variable {input : Bytes} (h : ll.Accepts input)
include h

theorem messageDone_of_accepts : (parsed ll H input).messageDone = true :=
  messageDone_of_ends (p := create ll H) h.alone h.whole

/-- The calls that are still to come, after what was fed before. -/
theorem results_parsed (calls : List FeedCall) (before rest : Bytes)
    (hinput : before ++ (calls.map FeedCall.raw).flatten = input) :
    (∃ more, (parsed ll H input).scratch = (parsed ll H before).scratch ++ more ∧
      ({ parsed ll H before with scratch := rest }.results calls).body = rest ++ more) ∧
    ((parsed ll H before).headerDone = false → ∃ mid, mid <+: input ∧
      (parsed ll H mid).headerDone = true ∧
      ({ parsed ll H before with scratch := rest }.results calls).seen =
        some ((parsed ll H mid).head,(parsed ll H mid).shouldKeepAlive)) := by
  induction calls generalizing before rest with
  | nil =>
    obtain rfl : before = input := by simpa using hinput
    refine ⟨⟨[],by simp,?_⟩,fun hd => ?_⟩
    · simp [results,readBody]
    · rw [headerDone_of_messageDone (messageDone_of_accepts h)] at hd
      cases hd
  | cons call calls ih =>
    have hinput' : (before ++ call.raw) ++ (calls.map FeedCall.raw).flatten = input := by
      rw [← hinput,List.append_assoc]
      rfl
    cases hm : (parsed ll H before).messageDone with
    | true =>
      refine ⟨⟨[],?_,?_⟩,fun hd => ?_⟩
      · have hprefix : before <+: input := ⟨_,hinput⟩
        rw [List.append_nil,parsed_scratch,parsed_scratch,
          run_out_of_messageDone hprefix h.alone hm]
      · rw [results_of_messageDone (p := { parsed ll H before with scratch := rest }) hm,
          List.append_nil]
      · rw [headerDone_of_messageDone hm] at hd
        cases hd
    | false =>
      obtain ⟨more,hmore,hfeed⟩ := feed_parsed before rest call.raw hm
      obtain ⟨rest',hrest,hread⟩ := readAll_eq
        { parsed ll H (before ++ call.raw) with scratch := rest ++ more } call.reads
      obtain ⟨⟨more',hmore',hbody⟩,hseen⟩ := ih (before ++ call.raw) rest' hinput'
      simp only [results,hfeed,hread]
      refine ⟨⟨more ++ more',?_,?_⟩,fun _ => ?_⟩
      · rw [hmore',hmore,List.append_assoc]
      · rw [hbody,← List.append_assoc,← hrest,List.append_assoc]
      · by_cases hd : (parsed ll H (before ++ call.raw)).headerDone = true
        · rw [if_pos hd]
          exact ⟨before ++ call.raw,⟨_,hinput'⟩,hd,rfl⟩
        · rw [if_neg hd]
          exact hseen (by simpa using hd)

/-- Every division yields the whole body, and the head after some part of the input. -/
theorem results_of_divides {calls : List FeedCall} (hinput : Divides calls input) :
    ∃ mid, mid <+: input ∧ (parsed ll H mid).headerDone = true ∧
      (create ll H).results calls =
        ⟨some ((parsed ll H mid).head,(parsed ll H mid).shouldKeepAlive),
          (parsed ll H input).scratch⟩ := by
  obtain ⟨⟨more,hmore,hbody⟩,hseen⟩ := results_parsed (H := H) h calls [] [] hinput
  obtain ⟨mid,hp,hd,hmid⟩ := hseen rfl
  have hcreate : ({ parsed ll H [] with scratch := [] } : LlhttpParser ll H) = create ll H := rfl
  rw [hcreate] at hbody hmid
  refine ⟨mid,hp,hd,?_⟩
  have hscratch : (parsed ll H input).scratch = more := hmore
  rw [hscratch,← List.nil_append more,← hbody,← hmid]

end

/-- While the body comes the live answer is the one that will be cached. -/
theorem shouldKeepAlive_of_isPrefix (hll : ll.Steady) {mid ys : Bytes} (h : ll.Accepts (mid ++ ys))
    (hn : noTrailers (ll.run ll.start (mid ++ ys)).out = true)
    (hd : (parsed ll H mid).headerDone = true) :
    (parsed ll H mid).shouldKeepAlive = (parsed ll H (mid ++ ys)).cachedKeepAlive := by
  have hcached : ∀ {before : Bytes}, before <+: mid ++ ys →
      (parsed ll H before).messageDone = true →
      (parsed ll H (mid ++ ys)).cachedKeepAlive = (parsed ll H before).cachedKeepAlive := by
    intro before hp hm
    simp only [parsed,run_out_of_messageDone hp h.alone hm]
  induction ys generalizing mid with
  | nil =>
    have hm : (parsed ll H (mid ++ [])).messageDone = true := messageDone_of_accepts h
    rw [List.append_nil] at hm ⊢
    simp [shouldKeepAlive,hm]
  | cons y ys ih =>
    cases hm : (parsed ll H mid).messageDone with
    | true =>
      rw [hcached (List.prefix_append _ _) hm]
      simp [shouldKeepAlive,hm]
    | false =>
      have hsplit : mid ++ y::ys = (mid ++ [y]) ++ ys := by simp
      have hp : mid ++ [y] <+: mid ++ y::ys := ⟨ys,hsplit.symm⟩
      have hbody := section_of_flags hd hm
      have hn' : noTrailers (ll.run ll.start (mid ++ [y])).out = true :=
        noTrailers_of_prefix (ll.run_out_prefix ll.start hp) hn
      have hlive : (parsed ll H mid).shouldKeepAlive = ll.shouldKeepAlive (parsed ll H mid).parser := by
        simp [shouldKeepAlive,hm]
      have hok := ll.prefix_not_failed (List.prefix_append mid (y::ys)) h.succeeds
      have hok' := ll.prefix_not_failed hp h.succeeds
      have hparsed := parsed_append_of_not_failed (H := H) [y] hok
      cases hm' : (parsed ll H (mid ++ [y])).messageDone with
      | true =>
        rw [hcached hp hm',hlive]
        rw [hparsed] at hm' ⊢
        exact (hll.reported mid y _ hok' hn' hbody (messageDone_foldl hm hm')).symm
      | false =>
        have hd' : (parsed ll H (mid ++ [y])).headerDone = true := by
          have hrun := ll.run_append_of_not_failed [y] hok
          rw [hrun] at hn'
          rw [hparsed]
          exact (headerDone_of_inBody (inBody_of_noTrailers hn'
            (endsHead_of_headerDone (p := create ll H) hd rfl)) _).trans hd
        rw [hsplit] at h hn hcached ⊢
        rw [← ih h hn hd' hcached]
        have hkept := hll.kept mid y hok' hn' hbody (section_of_flags hd' hm')
        rw [hlive,shouldKeepAlive,hm',if_neg (by simp)]
        exact hkept.symm

theorem fieldsIn_eq_nil {cs : List Callback} (h : cs.any Callback.endsField = false)
    (name value : Bytes) : fieldsIn name value cs = [] := by
  rw [← List.length_eq_zero_iff,length_fieldsIn,List.countP_eq_zero]
  exact List.any_eq_false.mp h

/-- Without trailer fields the fields are those of the header section. -/
theorem fieldsIn_of_noTrailerField {cs : List Callback} (h : hasTrailerField cs = false)
    (name value : Bytes) :
    fieldsIn name value cs = fieldsIn name value (cs.takeWhile fun c => !c.endsHead) := by
  induction cs generalizing name value with
  | nil => rfl
  | cons c cs ih =>
    unfold hasTrailerField at h
    split at h
    next hc =>
      simp only [List.takeWhile_cons,hc,Bool.not_true,Bool.false_eq_true,if_false]
      have hnone := fieldsIn_eq_nil h
      cases c <;> simp_all [Callback.endsHead,fieldsIn]
    next hc =>
      simp only [List.takeWhile_cons,hc,Bool.not_false,if_true]
      cases c <;> simp [fieldsIn,ih h]

section
variable {ll : Llhttp} {H : Type} [LawfulHead H]

/-- The head after all of the input has the fields of all its callbacks. -/
theorem headers_parsed {input : Bytes} (h : Alone ll input) :
    LawfulHead.headers (parsed ll H input).head = fieldsIn [] [] (ll.run ll.start input).out := by
  have hord := ll.ordered input
  change LawfulHead.headers ((ll.run ll.start input).out.foldl dispatch (create ll H)).head = _
  unfold Alone at h
  generalize (ll.run ll.start input).out = cs at h hord ⊢
  cases cs with
  | nil => exact LawfulHead.headers_fresh
  | cons c cs =>
    have hc : c = .onMessageBegin := by
      cases c <;> simp_all [Section.follow,Section.after]
    subst hc
    have hnot := notBegin_of_follow (s := .head) (by simp) hord h
    rw [List.foldl_cons,headers_foldl _ hnot]
    change LawfulHead.headers ParsedHead.fresh ++ fieldsIn [] [] cs = fieldsIn [] [] cs
    rw [LawfulHead.headers_fresh,List.nil_append]

/-- All divisions of the input yield the same results, and the head that is seen has the fields
of the header section. -/
def SameResults (ll : Llhttp) (H : Type) [LawfulHead H] (input : Bytes) : Prop :=
  (∀ ds es, Divides ds input → Divides es input →
    (create ll H).results ds = (create ll H).results es) ∧
  ∀ ds, Divides ds input → ∃ head shouldKeepAlive,
    ((create ll H).results ds).seen = some (head,shouldKeepAlive) ∧
      LawfulHead.headers head = headFields (ll.run ll.start input).out

/-- Without trailer fields every division yields what one call with the whole input yields. -/
theorem results_of_noTrailerField (hll : ll.Steady) {input : Bytes} (h : ll.Accepts input)
    (hn : hasTrailerField (ll.run ll.start input).out = false) {ds : List FeedCall}
    (hds : Divides ds input) : (create ll H).results ds =
      ⟨some ((parsed ll H input).head,(parsed ll H input).cachedKeepAlive),
        (parsed ll H input).scratch⟩ := by
  obtain ⟨mid,hp,hd,hresults⟩ := results_of_divides (H := H) h hds
  rw [hresults, head_of_prefix hp (h.fields hn) hd]
  obtain ⟨ys,rfl⟩ := hp
  rw [shouldKeepAlive_of_isPrefix hll h (h.fields hn) hd]

/-- Parsing a message does not depend on its division exactly if it has no trailer fields. -/
theorem sameResults_iff (hll : ll.Steady) {input : Bytes} (h : ll.Accepts input) :
    SameResults ll H input ↔ hasTrailerField (ll.run ll.start input).out = false := by
  constructor
  · rintro ⟨-,hfields⟩
    obtain ⟨head,shouldKeepAlive,hseen,hheaders⟩ := hfields [⟨input,[]⟩] (by simp [Divides])
    have hm : (parsed ll H []).messageDone = false := rfl
    obtain ⟨more,-,hfeed⟩ := feed_parsed [] [] input hm
    have hcreate : ({ parsed ll H [] with scratch := [] } : LlhttpParser ll H) = create ll H := rfl
    rw [hcreate,List.nil_append] at hfeed
    have hd : (parsed ll H input).headerDone = true :=
      headerDone_of_messageDone (messageDone_of_accepts h)
    simp only [results,hfeed,readAll,hd,if_true,Option.some.injEq,Prod.mk.injEq] at hseen
    rw [← hseen.1,headers_parsed h.alone] at hheaders
    rw [← countP_headFields,← hheaders,length_fieldsIn]
  · intro hn
    refine ⟨fun ds es hds hes => ?_,fun ds hds => ?_⟩
    · rw [results_of_noTrailerField hll h hn hds,results_of_noTrailerField hll h hn hes]
    · refine ⟨_,_,by rw [results_of_noTrailerField hll h hn hds],?_⟩
      rw [headers_parsed h.alone]
      exact fieldsIn_of_noTrailerField hn [] []

end

end LlhttpParser

namespace Strict
open LlhttpParser

/-- A run without failure ends in the part of the message that its callbacks lead to. -/
theorem place_run (type : MessageType) (raw : Bytes) (s : State)
    (h : ((automaton type).run s raw).failed = false) :
    s.place.follow ((automaton type).run s raw).out =
      some (State.place ((automaton type).run s raw).state) := by
  induction raw generalizing s with
  | nil => rfl
  | cons b raw ih =>
    have horderly : Orderly s ((automaton type).react s b) := react_orderly type s b
    simp only [Transducer.run] at h ⊢
    cases hr : (automaton type).react s b with
    | next out s' =>
      simp only [hr] at h horderly ⊢
      have hout : s.place.follow out = some (State.place s') := horderly
      rw [Section.follow_append,hout]
      exact ih s' h
    | fail out s' =>
      simp only [hr] at h
      cases h

/-- Unless it reads a field, the reaction reports the answer of the message, or keeps it. -/
def Keeps (type : MessageType) (m : Message) : Reaction State Callback → Prop
  | .next out s' => out.all Callback.inBody = true →
    (∀ answer, .onMessageComplete answer ∈ out → answer = m.shouldKeepAlive type) ∧
      (s'.place = .body → s'.shouldKeepAlive type = m.shouldKeepAlive type)
  | .fail _ _ => True

theorem keeps_complete (type : MessageType) (m : Message) {out : List Callback}
    (h : ∀ answer, .onMessageComplete answer ∉ out) : Keeps type m (complete type m out) := by
  intro _
  refine ⟨fun answer ha => ?_,fun hs => ?_⟩
  · rcases List.mem_append.mp ha with ha | ha
    · exact absurd ha (h answer)
    · simpa using ha
  · split at hs <;> cases hs

theorem keeps_endLine (type : MessageType) {part : Part} {m : Message} (read bytes : Bytes)
    (hs : (State.line part m read).place = .body) : Keeps type m (endLine type part m bytes) := by
  unfold endLine
  cases part with
  | startLine => cases hs
  | field => cases hs
  | chunkSize =>
    dsimp only
    split
    · exact fun _ => ⟨fun _ ha => (by cases ha),fun _ => rfl⟩
    · exact fun _ => ⟨fun _ ha => (by cases ha),fun _ => rfl⟩
    · trivial
  | chunkEnd =>
    dsimp only
    split
    · exact fun _ => ⟨fun _ ha => (by cases ha),fun _ => rfl⟩
    · trivial
  | trailer =>
    dsimp only
    split
    · exact keeps_complete type m (by simp)
    · split
      · intro hin
        simp [fieldCallbacks,Callback.inBody] at hin
      · trivial

theorem keeps_react (type : MessageType) {s : State} (b : UInt8) (hs : s.place = .body) :
    ∃ m, s.shouldKeepAlive type = m.shouldKeepAlive type ∧ Keeps type m (react type s b) := by
  cases s with
  | start => cases hs
  | closed => cases hs
  | line part m read =>
    refine ⟨m,rfl,?_⟩
    change Keeps type m (if b = 10 then if read.getLast? = some 13 then _ else _ else _)
    split
    · split
      · exact keeps_endLine type read _ hs
      · trivial
    · exact fun _ => ⟨fun _ ha => (by cases ha),fun _ => rfl⟩
  | identity m left =>
    refine ⟨m,rfl,?_⟩
    change Keeps type m (if left ≤ 1 then _ else _)
    split
    · exact keeps_complete type m (by simp)
    · exact fun _ => ⟨fun _ ha => (by simp at ha),fun _ => rfl⟩
  | chunk m left =>
    refine ⟨m,rfl,fun _ => ⟨fun _ ha => (by simp at ha),fun _ => ?_⟩⟩
    split <;> rfl
  | untilEof m => exact ⟨m,rfl,fun _ => ⟨fun _ ha => (by simp at ha),fun _ => rfl⟩⟩

theorem endsHead_of_body {type : MessageType} {before : Bytes}
    (h : Section.idle.follow ((automaton type).run .start before).out = some .body) :
    ((automaton type).run .start before).out.any Callback.endsHead = true := by
  have hflags : (parsed (Llhttp.strict type) RequestHead before).Flags .body := flags_parsed h
  exact endsHead_of_headerDone (p := create (Llhttp.strict type) RequestHead) hflags.1 rfl

/-- What one more byte of the body does. -/
theorem run_steady (type : MessageType) (before : Bytes) (b : UInt8)
    (hok : ((automaton type).run .start (before ++ [b])).failed = false)
    (hn : noTrailers ((automaton type).run .start (before ++ [b])).out = true)
    (hbody : Section.idle.follow ((automaton type).run .start before).out = some .body) :
    let s := ((automaton type).run .start before).state
    ∃ out s', react type s b = .next out s' ∧
      (automaton type).run .start (before ++ [b]) =
        ⟨((automaton type).run .start before).out ++ out,s',false⟩ ∧
      (∀ answer, .onMessageComplete answer ∈ out → answer = State.shouldKeepAlive type s) ∧
      (State.place s' = .body → State.shouldKeepAlive type s' = State.shouldKeepAlive type s) := by
  have hbefore := (automaton type).prefix_not_failed (List.prefix_append before [b]) hok
  have hrun := (automaton type).run_append_of_not_failed [b] hbefore
  have hplace := place_run type before .start hbefore
  have hs : State.place ((automaton type).run .start before).state = .body :=
    (Option.some.inj (hplace.symm.trans hbody))
  obtain ⟨m,hm,hkeeps⟩ := keeps_react type b hs
  dsimp only
  cases hr : react type ((automaton type).run .start before).state b with
  | fail out s' =>
    rw [hrun,run_fail hr] at hok
    cases hok
  | next out s' =>
    rw [run_next hr] at hrun
    rw [hrun] at hn
    rw [hr] at hkeeps
    obtain ⟨hreported,hkept⟩ := hkeeps (inBody_of_noTrailers hn (endsHead_of_body hbody))
    rw [hm]
    exact ⟨out,s',rfl,hrun,hreported,hkept⟩

/-- The automaton that can be run does what the adapters rely on. -/
theorem steady (type : MessageType) : (Llhttp.strict type).Steady := by
  constructor
  · intro before b hok hn hbody hbody'
    obtain ⟨out,s',-,hrun,-,hkept⟩ := run_steady type before b hok hn hbody
    have hplace := place_run type (before ++ [b]) .start hok
    have hs' : State.place ((automaton type).run .start (before ++ [b])).state = .body :=
      Option.some.inj (hplace.symm.trans hbody')
    rw [hrun] at hs'
    change State.shouldKeepAlive type ((automaton type).run .start (before ++ [b])).state = _
    rw [hrun]
    exact hkept hs'
  · intro before b answer hok hn hbody hanswer
    obtain ⟨out,s',hreact,-,hreported,-⟩ := run_steady type before b hok hn hbody
    refine hreported answer ?_
    change _ ∈ ((automaton type).run ((automaton type).run .start before).state [b]).out at hanswer
    rw [run_next hreact] at hanswer
    exact hanswer

/-- A request with a chunked body. -/
def chunkedRequest (trailer : Bytes) : Bytes :=
  ascii "POST / HTTP/1.1" ++ crlf ++ ascii "Transfer-Encoding: chunked" ++ crlf ++ crlf ++
    ascii "2" ++ crlf ++ ascii "ab" ++ crlf ++ ascii "0" ++ crlf ++ trailer ++ crlf

theorem accepts_chunked : (Llhttp.strict .request).Accepts (chunkedRequest []) :=
  ⟨by decide +kernel,by decide +kernel,by decide +kernel,by decide +kernel⟩

theorem accepts_trailer :
    (Llhttp.strict .request).Accepts (chunkedRequest (ascii "X: y" ++ crlf)) :=
  ⟨by decide +kernel,by decide +kernel,by decide +kernel,by decide +kernel⟩

end Strict

namespace LlhttpParser

theorem sameResults_chunked :
    SameResults (Llhttp.strict .request) RequestHead (Strict.chunkedRequest []) ↔
      hasTrailerField ((Llhttp.strict .request).run (Llhttp.strict .request).start
        (Strict.chunkedRequest [])).out = false :=
  sameResults_iff (Strict.steady .request) Strict.accepts_chunked

/-- Fed at once, a message with a trailer shows it among the fields of its head. -/
theorem trailer_in_head : ¬∀ (ll : Llhttp) (H : Type) [LawfulHead H] (input : Bytes), ll.Steady →
    ll.Accepts input → SameResults ll H input := by
  intro h
  obtain ⟨-,hfields⟩ := h (Llhttp.strict .request) RequestHead _ (Strict.steady .request)
    Strict.accepts_trailer
  obtain ⟨head,shouldKeepAlive,hseen,hheaders⟩ :=
    hfields [⟨Strict.chunkedRequest (ascii "X: y" ++ crlf),[]⟩] (by simp [Divides])
  have hne : (((create (Llhttp.strict .request) RequestHead).results
      [⟨Strict.chunkedRequest (ascii "X: y" ++ crlf),[]⟩]).seen.map fun p => p.1.headers) ≠
        some (headFields ((Llhttp.strict .request).run (Llhttp.strict .request).start
          (Strict.chunkedRequest (ascii "X: y" ++ crlf))).out) := by decide +kernel
  rw [hseen] at hne
  exact hne (congrArg some hheaders)

end LlhttpParser
end PerCoreShard
