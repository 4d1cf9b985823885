import PerCoreShard.Session.Callback

/-! The upstream connection of a session. Which connection an open session holds can be read
off its history, and a closed session has closed the one it held. A session that waits for
its next request has handed over the connection of the last one exactly when the response to
that allowed it. -/
namespace PerCoreShard
open Library LlhttpParser

/-- The connection in hand after an entry, given the one before it. -/
def Effect.holds (u : Option SocketId) : Effect → Option SocketId
  | .connected socket _ => some socket
  | .dropUpstream _ | .closeUpstream _ | .releaseConnection _ _ => none
  | _ => u

/-- The connection in hand at the end of a history. -/
def upstreamOf (history : List Effect) : Option SocketId := history.foldl Effect.holds none

@[simp] theorem upstreamOf_append (history : List Effect) (e : Effect) :
    upstreamOf (history ++ [e]) = Effect.holds (upstreamOf history) e := by
  simp [upstreamOf]

theorem Effect.holds_of_note {e : Effect} (h : e.isHolding = false) (u : Option SocketId) :
    Effect.holds u e = u := by
  cases e <;> simp_all [Effect.isHolding,Effect.holds]

namespace HttpSession
variable {G : Gateway}

/-- The history tells which connection is held; closing a session closes it. -/
def Holds (s : HttpSession G) : Prop :=
  upstreamOf s.history = if s.closing then none else s.upstream

theorem Holds.extend {s t : HttpSession G} (hs : Holds s) {es : List Effect}
    (hpast : t.past = s.past) (hlog : t.log = s.log ++ es)
    (hes : es.foldl Effect.holds (if s.closing then none else s.upstream) =
      if t.closing then none else t.upstream) : Holds t := by
  unfold Holds at hs ⊢
  rw [history_of_log hpast hlog,upstreamOf,List.foldl_append,← upstreamOf,hs,hes]

theorem Holds.eq_upstream {s : HttpSession G} (hs : Holds s) (ho : s.closing = false) :
    upstreamOf s.history = s.upstream := by
  unfold Holds at hs
  rw [hs,ho]
  rfl

theorem Holds.heard {s : HttpSession G} (hs : Holds s) (e : Event G) : Holds (s.heard e) := by
  refine hs.extend rfl rfl ?_
  obtain ⟨op,c,a⟩ := e
  cases hc : c.ok <;> cases op <;> simp [HttpSession.heard,inputEntry,hc,Effect.holds]

theorem Acts.holds {s t : HttpSession G} (h : Acts s t) (hs : Holds s) : Holds t := by
  induction h with
  | @frame s t h =>
    have hlog : t.log = s.log ++ [] := by simp [h.log]
    exact hs.extend h.past hlog (by simp [h.closing,h.upstream])
  | note _ hh => exact hs.extend rfl rfl (Effect.holds_of_note hh _)
  | @takeUpstream s ho socket pooled =>
    rw [takeUpstream_spec,List.append_assoc]
    exact hs.extend rfl rfl (by simp [Effect.holds,ho])
  | @discardUpstream s =>
    rw [discardUpstream_spec]
    refine hs.extend rfl rfl ?_
    cases s.upstream <;> cases s.closing <;> simp [Effect.holds]
  | releaseUpstream s =>
    obtain heq | ⟨socket,hu,heq⟩ := s.releaseUpstream_cases
    · rwa [heq]
    · rw [heq]
      exact hs.extend rfl rfl (by simp [Effect.holds])
  | close s =>
    cases hc : s.closing with
    | true => rwa [close_of_closing hc]
    | false =>
      rw [close_eq hc]
      refine hs.extend rfl rfl ?_
      cases hu : s.upstream <;> cases hr : s.readBuf <;> cases hw : s.writeBuf <;>
        simp [closingEffects,Effect.holds,hc,hu,hr,hw]
  | @reset s =>
    unfold Holds
    rw [history_resetForNextRequest,upstreamOf,List.foldl_append,← upstreamOf,hs]
    rfl
  | trans _ _ ih ih' => exact ih' (ih hs)

theorem holds_of_reaches {s : HttpSession G} (h : (system G).Reaches s) : Holds s := by
  refine System.ReachesWhen.invariant_with (I := Holds) (fun s hs => suspended_of_reaches hs)
    ?_ ?_ h
  · rintro _ ⟨ctx,readBuf,writeBuf,-,-,rfl⟩
    rfl
  · rintro s e _ hs hI - ⟨he,hlen,rfl⟩
    exact (acts_deliver hs he hlen).holds (hI.heard e)

/-- A connection is closed only while it is the one in hand. -/
def ClosesHeld (past : List Effect) (e : Effect) : Prop :=
  ∀ socket, e = .closeUpstream socket → upstreamOf past = some socket

theorem closesHeld_extend {s t : HttpSession G} (hs : AtEvery ClosesHeld s.history)
    {es : List Effect} (hpast : t.past = s.past) (hlog : t.log = s.log ++ es)
    (hes : Along ClosesHeld s.history es) : AtEvery ClosesHeld t.history := by
  rw [history_of_log hpast hlog]
  exact (atEvery_append _ _ _).mpr ⟨hs,hes⟩

theorem Acts.closesHeld {s t : HttpSession G} (h : Acts s t) (hh : Holds s)
    (hs : AtEvery ClosesHeld s.history) : AtEvery ClosesHeld t.history := by
  induction h with
  | @frame s t h =>
    have hlog : t.log = s.log ++ [] := by simp [h.log]
    exact closesHeld_extend hs h.past hlog trivial
  | note _ hn =>
    refine closesHeld_extend hs rfl rfl ⟨fun socket he => ?_,trivial⟩
    rw [he] at hn
    cases hn
  | @takeUpstream s ho socket pooled =>
    rw [takeUpstream_spec,List.append_assoc]
    refine closesHeld_extend hs rfl rfl ?_
    cases s.upstream <;> simp [ClosesHeld]
  | @discardUpstream s ho =>
    rw [discardUpstream_spec]
    refine closesHeld_extend hs rfl rfl ?_
    cases hu : s.upstream <;> simp [ClosesHeld,hh.eq_upstream ho,hu]
  | releaseUpstream s =>
    obtain heq | ⟨socket,-,heq⟩ := s.releaseUpstream_cases
    · rwa [heq]
    · rw [heq]
      exact closesHeld_extend hs rfl rfl (by simp [ClosesHeld])
  | close s =>
    cases hc : s.closing with
    | true => rwa [close_of_closing hc]
    | false =>
      rw [close_eq hc]
      refine closesHeld_extend hs rfl rfl ?_
      have hheld : upstreamOf (s.history ++ [.closeDownstream]) = s.upstream := by
        rw [upstreamOf_append,hh.eq_upstream hc]
        rfl
      cases hu : s.upstream <;> cases hr : s.readBuf <;> cases hw : s.writeBuf <;>
        simp [closingEffects,ClosesHeld,hu,hr,hw,hheld]
  | @reset s =>
    rw [history_resetForNextRequest]
    exact (atEvery_append _ _ _).mpr ⟨hs,by simp [ClosesHeld]⟩
  | trans h _ ih ih' => exact ih' (h.holds hh) (ih hh hs)

theorem closesHeld_of_reaches {s : HttpSession G} (h : (system G).Reaches s) :
    AtEvery ClosesHeld s.history := by
  refine System.ReachesWhen.invariant_with (J := fun s => Suspended s ∧ Holds s)
    (I := fun s => AtEvery ClosesHeld s.history)
    (fun s hs => ⟨suspended_of_reaches hs,holds_of_reaches hs⟩) ?_ ?_ h
  · rintro _ ⟨ctx,readBuf,writeBuf,-,-,rfl⟩
    simp [start,readRequestChunk,emit,await,history,cycles,AtEvery,ClosesHeld]
  · rintro s e _ ⟨hs,hh⟩ hI - ⟨he,hlen,rfl⟩
    refine (acts_deliver hs he hlen).closesHeld (hh.heard e) (closesHeld_extend hI rfl rfl ?_)
    obtain ⟨op,c,a⟩ := e
    cases hc : c.ok <;> cases op <;> simp [inputEntry,hc,ClosesHeld]

/-- `reset_for_next_request` has run and the session waits for the next request. -/
structure Idle (s : HttpSession G) : Prop where
  past : s.past ≠ []
  log : s.log = [.readDownstream]
  pending : s.pending = [.readRequest]

/-- The response relayed in a cycle lets the connection live on, as llhttp judges it. -/
def AllowsReuse (G : Gateway) (log : List Effect) : Prop :=
  ((cycleOf log).response.parse G.responseLlhttp).shouldKeepAlive = true

/-- A finished cycle has handed its connection to `release_connection`. -/
def Released (log : List Effect) : Prop :=
  ∃ index socket, [.releaseConnection index socket,.resetForNextRequest] <:+ log

/-- A finished cycle hands the connection over exactly when the response allows it. -/
theorem released_iff {s : HttpSession G} (h : (system G).Reaches s) {log : List Effect}
    (hlog : log ∈ s.past) : Released log ↔ AllowsReuse G log := by
  obtain ⟨before,rfl,hbefore,-,-,hrelease⟩ := reset_of_past h hlog
  have hreuse : AllowsReuse G (before ++ [.resetForNextRequest]) ↔ AllowsReuse G before := by
    simp [AllowsReuse,Cycle.record]
  rw [hreuse]
  constructor
  · rintro ⟨index,socket,start,heq⟩
    have hsplit : before = start ++ [.releaseConnection index socket] := by
      have hends : before ++ [Effect.resetForNextRequest] =
          (start ++ [.releaseConnection index socket]) ++ [Effect.resetForNextRequest] := by
        rw [← heq]
        simp
      exact List.append_cancel_right hends
    rw [hsplit] at hbefore ⊢
    have := (conforms_append.mp hbefore).2.2.2
    simpa [AllowsReuse,Cycle.record] using this
  · intro hr
    obtain ⟨index,socket,hl⟩ := hrelease hr
    refine ⟨index,socket,before.dropLast,?_⟩
    conv_rhs => rw [← List.dropLast_append_getLast? _ hl]
    simp

/-- A session that waits for its next request has handed over the connection it used last
exactly when the response allowed that, and then it holds none. -/
theorem idle_upstream {s : HttpSession G} (h : (system G).Reaches s) (hidle : Idle s) :
    ∀ log ∈ s.past.getLast?, (Released log ↔ AllowsReuse G log) ∧
      (AllowsReuse G log → s.upstream = none) := by
  intro log hlast
  obtain ⟨past,hpast⟩ : ∃ past, s.past = past ++ [log] :=
    ⟨_,(List.dropLast_append_getLast? _ hlast).symm⟩
  have hiff : Released log ↔ AllowsReuse G log := released_iff h (by simp [hpast])
  refine ⟨hiff,fun hreuse => ?_⟩
  obtain ⟨index,socket,before,rfl⟩ := hiff.mpr hreuse
  have hwaits : Op.readRequest ∈ s.pending := by simp [hidle.pending]
  have hopen := (suspended_of_reaches h).isOpen hwaits
  have hholds := holds_of_reaches h
  simpa [Holds,history,cycles,hpast,hidle.log,upstreamOf,Effect.holds,hopen,eq_comm] using hholds

/-- A request that is answered on a connection both sides keep. -/
def reusedRun : HttpSession (.strict [] 128) :=
  strictRun [] 128 [.read (ascii "GET /a HTTP/1.1\r\n\r\n"),.connected 7,.wrote 43,
    .read (ascii "HTTP/1.1 200 OK\r\nContent-Length: 0\r\n\r\n"),.wrote 62]

theorem idle_upstream_reused : reusedRun.past.length = 1 ∧
    ∀ log ∈ reusedRun.past.getLast?, (Released log ↔ AllowsReuse (.strict [] 128) log) ∧
      (AllowsReuse (.strict [] 128) log → reusedRun.upstream = none) :=
  ⟨by decide +kernel,idle_upstream (reaches_strictRun (by decide +kernel))
    ⟨by decide +kernel,by decide +kernel,by decide +kernel⟩⟩

/-- The backend announces that it will close, the client stays. -/
def leftOpenRun : HttpSession (.strict [] 128) :=
  strictRun [] 128 [.read (ascii "GET /a HTTP/1.1\r\n\r\n"),.connected 7,.wrote 43,
    .read (ascii "HTTP/1.1 200 OK\r\nContent-Length: 0\r\nConnection: close\r\n\r\n"),.wrote 62]

theorem idle_upstream_left :
    ¬∀ (G : Gateway) (s : HttpSession G), (system G).Reaches s → Idle s → s.upstream = none := by
  intro h
  have hnone := h _ leftOpenRun (reaches_strictRun (by decide +kernel))
    ⟨by decide +kernel,by decide +kernel,by decide +kernel⟩
  have hsome : leftOpenRun.upstream = some 7 := by decide +kernel
  rw [hsome] at hnone
  cases hnone

end HttpSession
end PerCoreShard
