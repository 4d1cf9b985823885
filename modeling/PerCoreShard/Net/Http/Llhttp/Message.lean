import PerCoreShard.Net.Http.Llhttp.Segmentation

/-! The messages of a stream. Where one message ends is told by its callbacks; a stream of one
message has no body before its head is complete. -/
namespace PerCoreShard
open Library

def Callback.ends : Callback → Bool
  | .onMessageComplete _ => true
  | _ => false

/-- Up to and with the end of the first message. -/
def firstMessage : List Callback → List Callback
  | [] => []
  | c::cs => if c.ends then [c] else c::firstMessage cs

/-- No message begins after one has ended. -/
def oneMessage : List Callback → Bool
  | [] => true
  | c::cs => if c.ends then cs.all fun d => d != .onMessageBegin else oneMessage cs

def Callback.endsHead : Callback → Bool
  | .onHeadersComplete _ => true
  | _ => false

def Callback.inBody : Callback → Bool
  | .onBody _ | .onMessageComplete _ => true
  | _ => false

/-- After the first head there is only its body. -/
def noTrailers : List Callback → Bool
  | [] => true
  | c::cs => if c.endsHead then cs.all Callback.inBody else noTrailers cs

theorem inBody_of_noTrailers {cs ds : List Callback} (h : noTrailers (cs ++ ds) = true)
    (hd : cs.any Callback.endsHead = true) : ds.all Callback.inBody = true := by
  induction cs with
  | nil => cases hd
  | cons c cs ih =>
    simp only [List.cons_append,noTrailers,List.any_cons] at h hd
    split at h
    · rw [List.all_append,Bool.and_eq_true] at h
      exact h.2
    next hc =>
      rw [Bool.eq_false_iff.mpr hc,Bool.false_or] at hd
      exact ih h hd

theorem oneMessage_of_prefix {xs ys : List Callback} (h : xs <+: ys) (hy : oneMessage ys = true) :
    oneMessage xs = true := by
  induction xs generalizing ys with
  | nil => rfl
  | cons c xs ih =>
    obtain ⟨zs,rfl⟩ := h
    simp only [List.cons_append,oneMessage] at hy ⊢
    split at hy
    next he =>
      rw [if_pos he]
      rw [List.all_append,Bool.and_eq_true] at hy
      exact hy.1
    next he =>
      rw [if_neg he]
      exact ih (List.prefix_append xs zs) hy

theorem noTrailers_of_prefix {xs ys : List Callback} (h : xs <+: ys) (hy : noTrailers ys = true) :
    noTrailers xs = true := by
  induction xs generalizing ys with
  | nil => rfl
  | cons c xs ih =>
    obtain ⟨zs,rfl⟩ := h
    simp only [List.cons_append,noTrailers] at hy ⊢
    split at hy
    next he =>
      rw [if_pos he]
      rw [List.all_append,Bool.and_eq_true] at hy
      exact hy.1
    next he =>
      rw [if_neg he]
      exact ih (List.prefix_append xs zs) hy

/-- Between two messages only the beginning of the next one is in order. -/
theorem nil_of_idle {cs : List Callback} (h : (Section.idle.follow cs).isSome = true)
    (hn : (cs.all fun d => d != .onMessageBegin) = true) : cs = [] := by
  cases cs with
  | nil => rfl
  | cons c cs =>
    rw [List.all_cons,Bool.and_eq_true] at hn
    cases c <;> simp_all [Section.follow,Section.after]

theorem Section.idle_of_ends {s t : Section} {c : Callback} (h : s.after c = some t)
    (he : c.ends = true) : t = .idle := by
  cases s <;> cases c <;> simp_all [Section.after,Callback.ends]

theorem firstMessage_of_oneMessage {cs : List Callback} {s : Section}
    (h : (s.follow cs).isSome = true) (hone : oneMessage cs = true) : firstMessage cs = cs := by
  induction cs generalizing s with
  | nil => rfl
  | cons c cs ih =>
    obtain ⟨t,ht⟩ := Option.isSome_iff_exists.mp h
    simp only [Section.follow,Option.bind_eq_some_iff] at ht
    obtain ⟨u,hu,ht⟩ := ht
    simp only [oneMessage] at hone
    unfold firstMessage
    split at hone
    next he =>
      rw [if_pos he]
      have hu' := Section.idle_of_ends hu he
      subst hu'
      rw [nil_of_idle (by rw [ht]; rfl) hone]
    next he =>
      rw [if_neg he,ih (by rw [ht]; rfl) hone]

theorem notBegin_of_oneMessage {cs ds : List Callback} (h : oneMessage (cs ++ ds) = true)
    (he : cs.any Callback.ends = true) : (ds.all fun d => d != .onMessageBegin) = true := by
  induction cs with
  | nil => cases he
  | cons c cs ih =>
    simp only [List.cons_append,oneMessage,List.any_cons] at h he
    split at h
    · rw [List.all_append,Bool.and_eq_true] at h
      exact h.2
    next hc =>
      rw [Bool.eq_false_iff.mpr hc,Bool.false_or] at he
      exact ih h he

/-- Inside a message no other begins. -/
theorem notBegin_of_follow {cs : List Callback} {s : Section} (hs : s ≠ .idle)
    (h : (s.follow cs).isSome = true) (hone : oneMessage cs = true) :
    (cs.all fun c => c != .onMessageBegin) = true := by
  induction cs generalizing s with
  | nil => rfl
  | cons c cs ih =>
    obtain ⟨t,ht⟩ := Option.isSome_iff_exists.mp h
    simp only [Section.follow,Option.bind_eq_some_iff] at ht
    obtain ⟨u,hu,ht⟩ := ht
    simp only [oneMessage] at hone
    have hc : c ≠ .onMessageBegin := by
      rintro rfl
      cases s <;> simp_all [Section.after]
    rw [List.all_cons,Bool.and_eq_true]
    refine ⟨by simpa using hc,?_⟩
    split at hone
    next he =>
      rw [nil_of_idle (Section.idle_of_ends hu he ▸ by rw [ht]; rfl) hone]
      rfl
    next he =>
      refine ih ?_ (by rw [ht]; rfl) hone
      rintro rfl
      cases s <;> cases c <;> simp_all [Section.after,Callback.ends]

def Callback.endsField : Callback → Bool
  | .onHeaderValueComplete => true
  | _ => false

/-- The fields that callbacks complete, with the parts of a field that came before them. -/
def fieldsIn : Bytes → Bytes → List Callback → List Header
  | _,_,[] => []
  | name,value,.onHeaderField span::cs => fieldsIn (name ++ span) value cs
  | name,value,.onHeaderValue span::cs => fieldsIn name (value ++ span) cs
  | name,value,.onHeaderValueComplete::cs => ⟨name,value⟩::fieldsIn [] [] cs
  | name,value,_::cs => fieldsIn name value cs

/-- The fields of the heads that the adapters assemble. -/
class LawfulHead (H : Type) extends ParsedHead H where
  headers : H → List Header
  headers_fresh : headers fresh = []
  headers_onUrl : ∀ head span, headers (onUrl head span) = headers head
  headers_onStatus : ∀ head span, headers (onStatus head span) = headers head
  headers_pushHeader : ∀ head h, headers (pushHeader head h) = headers head ++ [h]
  headers_onHeadersComplete : ∀ head line, headers (onHeadersComplete head line) = headers head

instance : LawfulHead RequestHead where
  headers := RequestHead.headers
  headers_fresh := rfl
  headers_onUrl _ _ := rfl
  headers_onStatus _ _ := rfl
  headers_pushHeader _ _ := rfl
  headers_onHeadersComplete _ _ := rfl

instance : LawfulHead ResponseHead where
  headers := ResponseHead.headers
  headers_fresh := rfl
  headers_onUrl _ _ := rfl
  headers_onStatus _ _ := rfl
  headers_pushHeader _ _ := rfl
  headers_onHeadersComplete _ _ := rfl

namespace LlhttpParser
variable {ll : Llhttp} {H : Type} [ParsedHead H]

/-- The adapter after the first message of the input and nothing else. -/
def first (ll : Llhttp) (H : Type) [ParsedHead H] (input : Bytes) : LlhttpParser ll H :=
  (firstMessage (ll.run ll.start input).out).foldl dispatch (create ll H)

/-- The callbacks of the input are those of one message. -/
def Alone (ll : Llhttp) (input : Bytes) : Prop := oneMessage (ll.run ll.start input).out = true

instance (ll : Llhttp) (input : Bytes) : Decidable (Alone ll input) :=
  inferInstanceAs (Decidable (_ = true))

theorem Alone.of_prefix {xs ys : Bytes} (h : Alone ll ys) (hp : xs <+: ys) : Alone ll xs :=
  oneMessage_of_prefix (ll.run_out_prefix ll.start hp) h

theorem Alone.firstMessage {input : Bytes} (h : Alone ll input) :
    firstMessage (ll.run ll.start input).out = (ll.run ll.start input).out :=
  firstMessage_of_oneMessage (ll.ordered input) h

/-- With one message in the input the first one is all there is. -/
theorem Alone.first_eq {input : Bytes} (h : Alone ll input) :
    first ll H input = { parsed ll H input with parser := ll.start, hasError := false } := by
  have hf := foldl_dispatch_with (ll.run ll.start input).out (create ll H) [] ll.start false
  have hc : ({ create ll H with scratch := [], parser := ll.start, hasError := false } :
    LlhttpParser ll H) = create ll H := rfl
  rw [hc] at hf
  rw [first,h.firstMessage,hf]
  have hs : (parsed ll H input).scratch = _ := parsed_scratch input
  simp only [parsed] at hs ⊢
  rw [hs,List.nil_append]

/-- More input never takes back a piece of body. -/
theorem scratch_prefix {xs ys : Bytes} (h : xs <+: ys) :
    (parsed ll H xs).scratch <+: (parsed ll H ys).scratch := by
  rw [parsed_scratch,parsed_scratch]
  obtain ⟨zs,hz⟩ := ll.run_out_prefix ll.start h
  rw [← hz,bodyOf,bodyOf,List.flatMap_append]
  exact List.prefix_append _ _

theorem headerDone_of_body {cs : List Callback} {p : LlhttpParser ll H}
    (h : (Section.body.follow cs).isSome = true) (hone : oneMessage cs = true)
    (hp : p.headerDone = true) : (cs.foldl dispatch p).headerDone = true := by
  induction cs generalizing p with
  | nil => exact hp
  | cons c cs ih =>
    obtain ⟨t,ht⟩ := Option.isSome_iff_exists.mp h
    simp only [Section.follow,Option.bind_eq_some_iff] at ht
    obtain ⟨u,hu,ht⟩ := ht
    simp only [oneMessage] at hone
    rw [List.foldl_cons]
    split at hone
    next he =>
      have hu' := Section.idle_of_ends hu he
      subst hu'
      rw [nil_of_idle (by rw [ht]; rfl) hone]
      cases c <;> simp_all [Callback.ends,dispatch]
    next he =>
      have hu' : u = .body := by
        cases c <;> simp_all [Section.after,Callback.ends]
      subst hu'
      refine ih (by rw [ht]; rfl) hone ?_
      cases c <;> simp_all [Section.after,dispatch]

theorem bodyOf_head {cs : List Callback} {p : LlhttpParser ll H}
    (h : (Section.head.follow cs).isSome = true) (hone : oneMessage cs = true)
    (hd : (cs.foldl dispatch p).headerDone = false) : bodyOf cs = [] := by
  induction cs generalizing p with
  | nil => rfl
  | cons c cs ih =>
    obtain ⟨t,ht⟩ := Option.isSome_iff_exists.mp h
    simp only [Section.follow,Option.bind_eq_some_iff] at ht
    obtain ⟨u,hu,ht⟩ := ht
    rw [List.foldl_cons] at hd
    have hne : c.ends = false := by cases c <;> simp_all [Section.after,Callback.ends]
    simp only [oneMessage,hne,Bool.false_eq_true,if_false] at hone
    cases hline : c with
    | onHeadersComplete line =>
      -- from here on the head is complete
      subst hline
      obtain rfl : u = .body := by simpa [Section.after,eq_comm] using hu
      rw [headerDone_of_body (by rw [ht]; rfl) hone rfl] at hd
      cases hd
    | _ =>
      have hu' : u = .head := by subst hline; simp_all [Section.after]
      subst hu'
      subst hline
      simp only [bodyOf,List.flatMap_cons]
      rw [show cs.flatMap Callback.body = [] from ih (by rw [ht]; rfl) hone hd]
      simp_all [Section.after,Callback.body]

/-- A stream of one message has no body before its head is complete. -/
theorem Alone.scratch_of_headerDone {input : Bytes} (h : Alone ll input)
    (hd : (parsed ll H input).headerDone = false) : (parsed ll H input).scratch = [] := by
  rw [parsed_scratch]
  have hord := ll.ordered input
  have hd' : ((ll.run ll.start input).out.foldl dispatch (create ll H)).headerDone = false := hd
  unfold Alone at h
  generalize (ll.run ll.start input).out = cs at h hord hd'
  cases cs with
  | nil => rfl
  | cons c cs =>
    have hc : c = .onMessageBegin := by
      cases c <;> simp_all [Section.follow,Section.after]
    subst hc
    simp only [bodyOf,List.flatMap_cons,Callback.body,List.nil_append]
    exact bodyOf_head hord h hd'

theorem endsHead_of_headerDone {cs : List Callback} {p : LlhttpParser ll H}
    (h : (cs.foldl dispatch p).headerDone = true) (hp : p.headerDone = false) :
    cs.any Callback.endsHead = true := by
  induction cs generalizing p with
  | nil =>
    rw [List.foldl_nil,hp] at h
    cases h
  | cons c cs ih =>
    rw [List.any_cons,Bool.or_eq_true]
    cases hc : c.endsHead with
    | true => exact .inl rfl
    | false =>
      refine .inr (ih h ?_)
      cases c <;> simp_all [dispatch,Callback.endsHead]

theorem head_of_inBody {cs : List Callback} (h : cs.all Callback.inBody = true)
    (p : LlhttpParser ll H) : (cs.foldl dispatch p).head = p.head := by
  induction cs generalizing p with
  | nil => rfl
  | cons c cs ih =>
    rw [List.all_cons,Bool.and_eq_true] at h
    rw [List.foldl_cons,ih h.2]
    cases c <;> simp_all [dispatch,Callback.inBody]

/-- A head that is complete does not change any more when there are no trailers. -/
theorem head_of_prefix {before input : Bytes} (hp : before <+: input)
    (hn : noTrailers (ll.run ll.start input).out = true)
    (hd : (parsed ll H before).headerDone = true) :
    (parsed ll H before).head = (parsed ll H input).head := by
  obtain ⟨more,hmore⟩ := ll.run_out_prefix ll.start hp
  rw [← hmore] at hn
  have hends : (ll.run ll.start before).out.any Callback.endsHead = true :=
    endsHead_of_headerDone (p := create ll H) hd rfl
  have hstay := head_of_inBody (inBody_of_noTrailers hn hends)
    ((ll.run ll.start before).out.foldl dispatch (create ll H))
  rw [← List.foldl_append,hmore] at hstay
  exact hstay.symm

theorem messageDone_foldl {cs : List Callback} {p : LlhttpParser ll H} (hp : p.messageDone = false)
    (h : (cs.foldl dispatch p).messageDone = true) :
    .onMessageComplete (cs.foldl dispatch p).cachedKeepAlive ∈ cs := by
  induction cs using List.reverseRecOn with
  | nil =>
    rw [List.foldl_nil,hp] at h
    cases h
  | append_singleton cs c ih =>
    rw [List.foldl_append] at h ⊢
    cases c <;> simp_all [dispatch]

theorem messageDone_of_ends {cs : List Callback} {p : LlhttpParser ll H}
    (hone : oneMessage cs = true) (h : cs.any Callback.ends = true) :
    (cs.foldl dispatch p).messageDone = true := by
  have hstay : ∀ (ds : List Callback) (q : LlhttpParser ll H), q.messageDone = true →
      (ds.all fun d => d != .onMessageBegin) = true → (ds.foldl dispatch q).messageDone = true := by
    intro ds
    induction ds with
    | nil => exact fun q hq _ => hq
    | cons d ds ih =>
      intro q hq hd
      rw [List.all_cons,Bool.and_eq_true] at hd
      refine ih _ ?_ hd.2
      cases d <;> simp_all [dispatch]
  induction cs generalizing p with
  | nil => cases h
  | cons c cs ih =>
    rw [List.any_cons,Bool.or_eq_true] at h
    rw [List.foldl_cons]
    simp only [oneMessage] at hone
    split at hone
    next he =>
      refine hstay cs _ ?_ hone
      cases c <;> simp_all [Callback.ends,dispatch]
    next he => exact ih hone (h.resolve_left he)

/-- No callbacks come after the message is complete. -/
theorem run_out_of_messageDone {before input : Bytes} (hp : before <+: input)
    (halone : Alone ll input) (hm : (parsed ll H before).messageDone = true) :
    (ll.run ll.start input).out = (ll.run ll.start before).out := by
  obtain ⟨more,hmore⟩ := ll.run_out_prefix ll.start hp
  have hends : (ll.run ll.start before).out.any Callback.ends = true :=
    List.any_eq_true.mpr ⟨_,messageDone_foldl (p := create ll H) rfl hm,rfl⟩
  have hord := ll.ordered input
  unfold Alone at halone
  rw [← hmore] at halone hord ⊢
  obtain ⟨t,ht⟩ := Option.isSome_iff_exists.mp (ll.ordered before)
  have hflags : (parsed ll H before).Flags t := flags_parsed ht
  have hidle : t = .idle := by
    cases t <;> simp_all [Flags]
  rw [Section.follow_append,ht,Option.bind_some,hidle] at hord
  rw [nil_of_idle hord (notBegin_of_oneMessage halone hends),List.append_nil]

theorem section_of_flags {input : Bytes} (hd : (parsed ll H input).headerDone = true)
    (hm : (parsed ll H input).messageDone = false) :
    Section.idle.follow (ll.run ll.start input).out = some .body := by
  obtain ⟨t,ht⟩ := Option.isSome_iff_exists.mp (ll.ordered input)
  have hflags : (parsed ll H input).Flags t := flags_parsed ht
  rw [ht]
  cases t <;> simp_all [Flags]

theorem headerDone_of_inBody {cs : List Callback} (h : cs.all Callback.inBody = true)
    (p : LlhttpParser ll H) : (cs.foldl dispatch p).headerDone = p.headerDone := by
  induction cs generalizing p with
  | nil => rfl
  | cons c cs ih =>
    rw [List.all_cons,Bool.and_eq_true] at h
    rw [List.foldl_cons,ih h.2]
    cases c <;> simp_all [dispatch,Callback.inBody]

section
variable {ll : Llhttp} {H : Type} [LawfulHead H]

theorem headers_foldl {cs : List Callback} (p : LlhttpParser ll H)
    (h : (cs.all fun c => c != .onMessageBegin) = true) :
    LawfulHead.headers (cs.foldl dispatch p).head =
      LawfulHead.headers p.head ++ fieldsIn p.pendingField p.pendingValue cs := by
  induction cs generalizing p with
  | nil => simp [fieldsIn]
  | cons c cs ih =>
    rw [List.all_cons,Bool.and_eq_true] at h
    rw [List.foldl_cons,ih _ h.2]
    cases c <;> simp_all [dispatch,fieldsIn,LawfulHead.headers_onUrl,LawfulHead.headers_onStatus,
      LawfulHead.headers_pushHeader,LawfulHead.headers_onHeadersComplete]

end

end LlhttpParser
end PerCoreShard
