import PerCoreShard.Session.Flight

/-! What a session does to the buffers and the counters of its shard: it takes two buffers when
it is started, gives both back when it is closed, and is counted once at either end. -/
namespace PerCoreShard
open Library

/-- The buffer that goes back to the pool. -/
def Effect.released : Effect → Option Buffer
  | .releaseBuffer b => some b
  | _ => none

theorem Effect.unaccounted {e : Effect} (h : e.isHolding = false) :
    e.released = none ∧ e ≠ .onClose ∧ e ≠ .onAccept := by
  cases e <;> simp_all [Effect.isHolding,Effect.released]

namespace HttpSession
variable {G : Gateway}

/-- The buffers the session holds. -/
def bufferIds (s : HttpSession G) : List ℕ :=
  (s.readBuf.map Buffer.id).toList ++ (s.writeBuf.map Buffer.id).toList

/-- What has to be settled with the shard when the session goes from `s` to `t`, having
recorded `es`: nothing, or the closing of the session. -/
inductive Accounts (s t : HttpSession G) (es : List Effect) : Prop
  | kept (closing : t.closing = s.closing) (buffers : t.bufferIds = s.bufferIds)
    (released : es.filterMap Effect.released = []) (onClose : es.count .onClose = 0)
  | closed (isOpen : s.closing = false) (closing : t.closing = true) (buffers : t.bufferIds = [])
    (released : (es.filterMap Effect.released).map Buffer.id = s.bufferIds)
    (sized : s.Sized → ∀ b ∈ es.filterMap Effect.released, b.data.length = G.bufferSize)
    (onClose : es.count .onClose = 1)

/-- Entries about other things change nothing. -/
theorem Accounts.unheld {s t : HttpSession G} {es : List Effect} (hc : t.closing = s.closing)
    (hb : t.bufferIds = s.bufferIds) (hes : ∀ e ∈ es, e.isHolding = false) :
    Accounts s t es ∧ .onAccept ∉ es := by
  refine ⟨.kept hc hb ?_ ?_,fun hm => (Effect.unaccounted (hes _ hm)).2.2 rfl⟩
  · exact List.filterMap_eq_nil_iff.mpr fun e he => (Effect.unaccounted (hes e he)).1
  · exact List.count_eq_zero.mpr fun hm => (Effect.unaccounted (hes _ hm)).2.1 rfl

theorem isHolding_inputEntry (op : Op) (c : Completion) :
    ∀ e ∈ inputEntry op c, e.isHolding = false := by
  obtain ⟨ok,data,written,socket⟩ := c
  cases ok <;> cases op <;> simp [inputEntry,Effect.isHolding]

theorem Accounts.trans {s t u : HttpSession G} {es fs : List Effect} (h : Accounts s t es)
    (h' : Accounts t u fs) (hsized : s.Sized → t.Sized) : Accounts s u (es ++ fs) := by
  cases h with
  | kept hc hb hr hn =>
    cases h' with
    | kept hc' hb' hr' hn' =>
      exact .kept (hc'.trans hc) (hb'.trans hb) (by simp [hr,hr']) (by simp [hn,hn'])
    | closed ho hc' hb' hr' hs hn' =>
      refine .closed (hc ▸ ho) hc' hb' ?_ ?_ (by simp [hn,hn'])
      · simpa [hr,hb] using hr'
      · simpa [hr] using fun h => hs (hsized h)
  | closed ho hc hb hr hs hn =>
    cases h' with
    | kept hc' hb' hr' hn' =>
      exact .closed ho (hc'.trans hc) (hb'.trans hb) (by simpa [hr'] using hr)
        (by simpa [hr'] using hs) (by simp [hn,hn'])
    | closed ho' =>
      rw [hc] at ho'
      cases ho'

theorem released_closingEffects (s : HttpSession G) :
    s.closingEffects.filterMap Effect.released = s.readBuf.toList ++ s.writeBuf.toList := by
  cases hu : s.upstream <;> cases hr : s.readBuf <;> cases hw : s.writeBuf <;>
    simp only [closingEffects,hu,hr,hw] <;> rfl

theorem count_closingEffects (s : HttpSession G) : s.closingEffects.count .onClose = 1 := by
  cases hu : s.upstream <;> cases hr : s.readBuf <;> cases hw : s.writeBuf <;>
    simp [closingEffects,hu,hr,hw]

theorem accounts_close {s : HttpSession G} (h : s.closing = false) :
    Accounts s s.close s.closingEffects := by
  rw [close_eq h]
  refine .closed h rfl rfl ?_ (fun hs b hb => ?_) s.count_closingEffects
  · rw [released_closingEffects,List.map_append,bufferIds]
    cases s.readBuf <;> cases s.writeBuf <;> rfl
  · rw [released_closingEffects] at hb
    rcases List.mem_append.mp hb with hb | hb
    · exact hs.1 b (Option.mem_toList.mp hb)
    · exact hs.2 b (Option.mem_toList.mp hb)

/-- Whatever a session does it accounts for in what it records. -/
theorem Acts.accounts {s t : HttpSession G} (h : Acts s t) :
    (s.Sized → t.Sized) ∧ ∃ es, t.history = s.history ++ es ∧ Accounts s t es ∧ .onAccept ∉ es := by
  induction h with
  | frame h =>
    refine ⟨h.sized,[],?_,.kept h.closing (by rw [bufferIds,h.readBuf,h.writeBuf]; rfl) rfl rfl,by simp⟩
    exact history_of_log h.past (by simp [h.log])
  | @note s e hi hh => exact ⟨id,[e],history_emit s e,Accounts.unheld rfl rfl (by simpa using hh)⟩
  | @takeUpstream s _ socket pooled =>
    rw [takeUpstream_spec]
    refine ⟨id,_,history_of_log rfl (List.append_assoc _ _ _),.kept rfl rfl ?_ ?_,?_⟩ <;>
      cases s.upstream <;> simp [Effect.released]
  | @discardUpstream s =>
    rw [discardUpstream_spec]
    refine ⟨id,_,history_of_log rfl rfl,.kept rfl rfl ?_ ?_,?_⟩ <;>
      cases s.upstream <;> simp [Effect.released]
  | releaseUpstream s =>
    obtain heq | ⟨socket,-,heq⟩ := s.releaseUpstream_cases <;> rw [heq]
    · exact ⟨id,[],by simp,.kept rfl rfl rfl rfl,by simp⟩
    · exact ⟨id,_,history_of_log rfl rfl,.kept rfl rfl rfl rfl,by simp⟩
  | close s =>
    cases hc : s.closing with
    | true =>
      rw [close_of_closing hc]
      exact ⟨id,[],by simp,.kept rfl rfl rfl rfl,by simp⟩
    | false =>
      refine ⟨fun _ => ?_,_,?_,accounts_close hc,?_⟩
      · rw [close_eq hc]
        exact ⟨by simp,by simp⟩
      · rw [close_eq hc]
        exact history_of_log rfl rfl
      · simp [closingEffects]
  | @reset s =>
    refine ⟨id,_,history_resetForNextRequest s,.kept rfl rfl rfl rfl,by simp⟩
  | trans _ _ ih ih' =>
    obtain ⟨hs,es,hes,ha,hn⟩ := ih
    obtain ⟨hs',fs,hfs,ha',hn'⟩ := ih'
    exact ⟨hs' ∘ hs,es ++ fs,by rw [hfs,hes,List.append_assoc],ha.trans ha' hs,by simp [hn,hn']⟩

/-- What one callback adds to the record. -/
def since (s t : HttpSession G) : List Effect := t.history.drop s.history.length

theorem accounts_deliver {s : HttpSession G} {e : Event G} (hs : Suspended s)
    (he : e.op ∈ s.pending) (hlen : e.completion.data.length ≤ G.bufferSize) :
    (s.Sized → (s.deliver e).Sized) ∧ (s.deliver e).history = s.history ++ s.since (s.deliver e) ∧
      Accounts s (s.deliver e) (s.since (s.deliver e)) ∧ .onAccept ∉ s.since (s.deliver e) := by
  obtain ⟨hsized,es,hes,ha,hn⟩ := (acts_deliver hs he hlen).accounts
  have hheard : (s.heard e).history = s.history ++ inputEntry e.op e.completion :=
    history_of_log rfl rfl
  obtain ⟨hinput,hninput⟩ := Accounts.unheld (s := s) (t := s.heard e) rfl rfl
    (isHolding_inputEntry e.op e.completion)
  have hall : (s.deliver e).history = s.history ++ (inputEntry e.op e.completion ++ es) := by
    rw [hes,hheard,List.append_assoc]
  have hsince : s.since (s.deliver e) = inputEntry e.op e.completion ++ es := by
    rw [since,hall,List.drop_left]
  rw [hsince]
  exact ⟨hsized,hall,hinput.trans ha id,by simp [hn,hninput]⟩

/-- Counted once as accepted, and as closed once it is closed. -/
structure Counted (s : HttpSession G) : Prop where
  onAccept : s.history.count .onAccept = 1
  onClose : s.history.count .onClose = if s.closing then 1 else 0

theorem Counted.after {s t : HttpSession G} {es : List Effect} (h : Counted s)
    (ht : t.history = s.history ++ es) (ha : Accounts s t es) (hn : .onAccept ∉ es) :
    Counted t where
  onAccept := by rw [ht,List.count_append,h.onAccept,List.count_eq_zero.mpr hn]
  onClose := by
    rw [ht,List.count_append,h.onClose]
    cases ha with
    | kept hc _ _ hn => rw [hc,hn,Nat.add_zero]
    | closed ho hc _ _ _ hn => rw [ho,hc,hn]; rfl

@[simp] theorem closing_start (ctx : G.Ctx) (readBuf writeBuf : Buffer) :
    (start ctx readBuf writeBuf).closing = false := rfl

@[simp] theorem bufferIds_start (ctx : G.Ctx) (readBuf writeBuf : Buffer) :
    (start ctx readBuf writeBuf).bufferIds = [readBuf.id,writeBuf.id] := rfl

theorem counted_start (ctx : G.Ctx) (readBuf writeBuf : Buffer) :
    Counted (start ctx readBuf writeBuf) := ⟨rfl,rfl⟩

theorem counted_of_reaches {s : HttpSession G} (h : (system G).Reaches s) : Counted s := by
  refine System.ReachesWhen.invariant_with (I := Counted) (fun s hs => suspended_of_reaches hs)
    ?_ ?_ h
  · rintro _ ⟨ctx,readBuf,writeBuf,-,-,rfl⟩
    exact counted_start ctx readBuf writeBuf
  · rintro s e _ hs hI - ⟨he,hlen,rfl⟩
    obtain ⟨-,hh,ha,hn⟩ := accounts_deliver hs he hlen
    exact hI.after hh ha hn

theorem sized_of_reaches {s : HttpSession G} (h : (system G).Reaches s) : Sized s := by
  refine System.ReachesWhen.invariant_with (I := Sized) (fun s hs => suspended_of_reaches hs)
    ?_ ?_ h
  · rintro _ ⟨ctx,readBuf,writeBuf,hr,hw,rfl⟩
    exact ⟨fun b hb => Option.some.inj hb ▸ hr,fun b hb => Option.some.inj hb ▸ hw⟩
  · rintro s e _ hs hI - ⟨he,hlen,rfl⟩
    exact (accounts_deliver hs he hlen).1 hI

/-- The write buffer of an open session has the size of the pool. -/
theorem writeBufSize_of_reaches {s : HttpSession G} (h : (system G).Reaches s)
    (hopen : s.closing = false) : s.writeBufSize = G.bufferSize := by
  obtain ⟨b,hb⟩ := Option.isSome_iff_exists.mp ((equipped_of_reaches h).isOpen hopen).2
  simp [writeBufSize,hb,(sized_of_reaches h).2 b hb]

end HttpSession
end PerCoreShard
