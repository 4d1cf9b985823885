import PerCoreShard.Library.History
import PerCoreShard.Session.Session

/-! How a `Session` comes to its end while operations of both directions are in flight. -/
namespace PerCoreShard
open Library

namespace Session

/-- An operation is started on a socket. -/
def Effect.starts : Effect → Bool
  | .readDownstream | .writeUpstream _ | .readUpstream | .writeDownstream _ => true
  | _ => false

/-- The upstream socket is released to the pool or closed. -/
def Effect.disposes (socket : SocketId) : Effect → Bool
  | .releaseConnection _ u | .closeUpstream u => u == socket
  | _ => false

/-- An upstream operation has failed. -/
def Effect.upstreamFailed : Effect → Bool
  | .finished op ok => op.onUpstream && !ok
  | _ => false

/-- The upstream socket is released to the pool. -/
def Effect.releases : Effect → Bool
  | .releaseConnection _ _ => true
  | _ => false

structure ShutdownSafe (s : Session) : Prop where
  valid : .nullPointer ∉ s.log
  quiet : AtEvery (fun past e => e.starts = true → .closeDownstream ∉ past) s.log
  disposed : ∀ socket, .connected socket ∈ s.log →
    s.log.countP (Effect.disposes socket) = if s.closing then 1 else 0
  healthy : AtEvery (fun past e => e.releases = true → past.any Effect.upstreamFailed = false) s.log

/-- When a failure is delivered and ends the session, nothing that has succeeded is queued, and
no failure of the upstream is if its connection would be released. -/
def Undisturbed (s : Session) : Event → Prop
  | .finish _ _ => True
  | .deliver op c a => c.ok = false → s.closing = false → ∀ f ∈ s.flights.erase ⟨op,some c⟩,
    ∀ d ∈ f.completion, d.ok = false ∧
      (op.onUpstream = false → a.upstreamOpen = true → f.op.onUpstream = false)

instance (s : Session) : (e : Event) → Decidable (Undisturbed s e)
  | .finish _ _ => inferInstanceAs (Decidable True)
  | .deliver op c _ => inferInstanceAs (Decidable (_ → _ → ∀ f ∈ s.flights.erase ⟨op,some c⟩,
    ∀ d ∈ f.completion, _ ∧ (_ → _ → _)))

/-- Entries of a session that is not closing. -/
def Effect.calm : Effect → Bool
  | .nullPointer | .closeDownstream | .releaseConnection _ _ | .closeUpstream _ => false
  | _ => true

theorem Effect.not_calm_of_disposes {e : Effect} {socket : SocketId}
    (h : e.disposes socket = true) : e.calm = false := by
  cases e <;> first | rfl | cases h

theorem Effect.not_calm_of_releases {e : Effect} (h : e.releases = true) : e.calm = false := by
  cases e <;> first | rfl | cases h

theorem safe_of_calm {s : Session} (hc : s.closing = false) (h : ∀ e ∈ s.log, e.calm = true) :
    ShutdownSafe s where
  valid hmem := by cases h _ hmem
  quiet := by
    refine (atEvery_iff _ _).mpr fun past e future hlog _ hmem => ?_
    cases h .closeDownstream (hlog ▸ List.mem_append_left _ hmem)
  disposed socket _ := by
    rw [hc]
    refine List.countP_eq_zero.mpr fun e he hd => ?_
    have hcalm := h e he
    rw [Effect.not_calm_of_disposes hd] at hcalm
    cases hcalm
  healthy := by
    refine (atEvery_iff _ _).mpr fun past e future hlog hr => ?_
    have hcalm := h e (by simp [hlog])
    rw [Effect.not_calm_of_releases hr] at hcalm
    cases hcalm

/-- A session that has no connection to the upstream yet. -/
structure Unconnected (s : Session) : Prop where
  upstream : s.upstream = none
  healthy : s.upstreamHealthy = true
  downToUpBuf : s.downToUpBuf = none
  upToDownBuf : s.upToDownBuf = none
  unconnected : ∀ socket, .connected socket ∉ s.log
  unfailed : s.log.any Effect.upstreamFailed = false

structure Relaying (s : Session) (socket : SocketId) : Prop where
  connected : ∀ f ∈ s.flights, f.op ≠ .connect
  upstream : s.upstream = some socket
  healthy : s.upstreamHealthy = true
  downToUpBuf : s.downToUpBuf.isSome = true
  upToDownBuf : s.upToDownBuf.isSome = true
  only : ∀ other, .connected other ∈ s.log → other = socket

/-- A session that is not closing; its failures are still queued. -/
structure Open (s : Session) : Prop where
  closing : s.closing = false
  calm : ∀ e ∈ s.log, e.calm = true
  noted : ∀ f ∈ s.flights, ∀ c, f.completion = some c → .finished f.op c.ok ∈ s.log
  queued : s.log.any Effect.upstreamFailed = true →
    ∃ f ∈ s.flights, f.op.onUpstream = true ∧ ∃ c, f.completion = some c ∧ c.ok = false
  phase : (Unconnected s ∧ ∃ c, s.flights = [⟨.connect,c⟩]) ∨ ∃ socket, Relaying s socket

/-- Entries of the two loops. -/
def Effect.ofLoop : Effect → Bool
  | .readDownstream | .writeUpstream _ | .readUpstream | .writeDownstream _ => true
  | .bytesDownstreamToUpstream _ | .bytesUpstreamToDownstream _ => true
  | _ => false

/-- After a success both loops go on. -/
theorem handle_relaying {s : Session} {socket : SocketId} (h : Relaying s socket) {op : Op}
    (hop : op ≠ .connect) {c : Completion} (hc : c.ok = true) (a : Answers) :
    ∃ down up op' entries, op' ≠ .connect ∧ (∀ e ∈ entries, e.ofLoop = true) ∧
      s.handle op c a = { s with
        downToUpBuf := some down
        upToDownBuf := some up
        flights := s.flights ++ [⟨op',none⟩]
        log := s.log ++ entries } := by
  obtain ⟨down,hdown⟩ := Option.isSome_iff_exists.mp h.downToUpBuf
  obtain ⟨up,hup⟩ := Option.isSome_iff_exists.mp h.upToDownBuf
  obtain ⟨upstream,index,healthy,downBuf,upBuf,closing,flights,log⟩ := s
  obtain rfl : upstream = some socket := h.upstream
  obtain rfl : downBuf = some down := hdown
  obtain rfl : upBuf = some up := hup
  cases op with
  | connect => exact absurd rfl hop
  | readDownstream =>
    refine ⟨down.write c.data,up,.writeUpstream c.data,[.writeUpstream c.data],by simp,
      by simp [Effect.ofLoop],?_⟩
    simp [handle,onDownstreamRead,hc,emit,begin_]
  | writeUpstream data =>
    refine ⟨down,up,.readDownstream,[.bytesDownstreamToUpstream c.written,.readDownstream],by simp,
      by simp [Effect.ofLoop],?_⟩
    simp [handle,onUpstreamWritten,relayDownstreamToUpstream,hc,emit,begin_]
  | readUpstream =>
    refine ⟨down,up.write c.data,.writeDownstream c.data,[.writeDownstream c.data],by simp,
      by simp [Effect.ofLoop],?_⟩
    simp [handle,onUpstreamRead,hc,emit,begin_]
  | writeDownstream data =>
    refine ⟨down,up,.readUpstream,[.bytesUpstreamToDownstream c.written,.readUpstream],by simp,
      by simp [Effect.ofLoop],?_⟩
    simp [handle,onDownstreamWritten,relayUpstreamToDownstream,hc,emit,begin_]

/-- A failure ends the session, and a failure of the upstream makes its connection unhealthy. -/
theorem handle_failed (s : Session) {op : Op} (hop : op ≠ .connect) {c : Completion}
    (hc : c.ok = false) (a : Answers) :
    s.handle op c a =
      { s with upstreamHealthy := s.upstreamHealthy && !op.onUpstream }.close a := by
  cases op with
  | connect => exact absurd rfl hop
  | _ => simp [handle,onDownstreamRead,onUpstreamWritten,onUpstreamRead,onDownstreamWritten,hc,
      Op.onUpstream]

/-- The session that a failure of `op` ends. -/
def failing (s : Session) (op : Op) (c : Completion) : Session :=
  { s with
    flights := s.flights.erase ⟨op,some c⟩
    upstreamHealthy := s.upstreamHealthy && !op.onUpstream }

theorem deliver_failed (s : Session) {op : Op} (hop : op ≠ .connect) {c : Completion}
    (hc : c.ok = false) (a : Answers) : s.deliver op c a = (s.failing op c).close a :=
  handle_failed _ hop hc a

theorem close_of_closing {s : Session} (h : s.closing = true) (a : Answers) : s.close a = s := by
  simp [close,h]

/-- What `close` does to a session that relays. -/
def ending (s : Session) (socket : SocketId) (a : Answers) : List Effect :=
  if s.upstreamHealthy && a.upstreamOpen then
    [.cancelUpstream,.releaseConnection s.endpointIndex socket]
  else [.closeUpstream socket]

theorem close_relaying {s : Session} {socket : SocketId} {down up : Buffer}
    (hc : s.closing = false) (hu : s.upstream = some socket) (hdown : s.downToUpBuf = some down)
    (hup : s.upToDownBuf = some up) (a : Answers) :
    s.close a = { s with
      closing := true
      upstream := if s.upstreamHealthy && a.upstreamOpen then none else some socket
      downToUpBuf := none
      upToDownBuf := none
      flights := (s.flights.map (abort Op.onDownstream)).map (abort Op.onUpstream)
      log := s.log ++ .closeDownstream::(s.ending socket a ++
        [.releaseBuffer down,.releaseBuffer up,.onClose]) } := by
  obtain ⟨upstream,index,healthy,downBuf,upBuf,closing,flights,log⟩ := s
  obtain rfl : closing = false := hc
  obtain rfl : upstream = some socket := hu
  obtain rfl : downBuf = some down := hdown
  obtain rfl : upBuf = some up := hup
  cases healthy <;> cases ha : a.upstreamOpen <;>
    simp [close,giveUpUpstream,releaseDownToUpBuf,releaseUpToDownBuf,abortAll,emit,ending,ha]

theorem close_unconnected {s : Session} (hc : s.closing = false) (hu : s.upstream = none)
    (hdown : s.downToUpBuf = none) (hup : s.upToDownBuf = none) (a : Answers) :
    s.close a = { s with
      closing := true
      flights := s.flights.map (abort Op.onDownstream)
      log := s.log ++ [.closeDownstream,.onClose] } := by
  obtain ⟨upstream,index,healthy,downBuf,upBuf,closing,flights,log⟩ := s
  obtain rfl : closing = false := hc
  obtain rfl : upstream = none := hu
  obtain rfl : downBuf = none := hdown
  obtain rfl : upBuf = none := hup
  simp [close,giveUpUpstream,releaseDownToUpBuf,releaseUpToDownBuf,abortAll,emit]

/-- A session that has come to its end, with nothing but failures to be delivered. -/
structure Closed (s : Session) : Prop where
  closing : s.closing = true
  spent : ∀ f ∈ s.flights, f.op ≠ .connect ∧ ∃ c, f.completion = some c ∧ c.ok = false
  safe : ShutdownSafe s

theorem abort_spent {f : Flight} (hop : f.op ≠ .connect)
    (h : ∀ c, f.completion = some c → c.ok = false) :
    (abort Op.onUpstream (abort Op.onDownstream f)).op ≠ .connect ∧
      ∃ c, (abort Op.onUpstream (abort Op.onDownstream f)).completion = some c ∧ c.ok = false := by
  obtain ⟨op,completion⟩ := f
  cases completion with
  | none => cases op <;> simp_all [abort,Op.onUpstream,Op.onDownstream]
  | some c => exact ⟨by simpa [abort] using hop,c,by simp [abort],h c rfl⟩

theorem ShutdownSafe.congr {s t : Session} (h : ShutdownSafe s) (hlog : t.log = s.log)
    (hc : t.closing = s.closing) : ShutdownSafe t := by
  obtain ⟨hvalid,hquiet,hdisposed,hhealthy⟩ := h
  refine ⟨?_,?_,?_,?_⟩ <;> rw [hlog]
  · exact hvalid
  · exact hquiet
  · rw [hc]
    exact hdisposed
  · exact hhealthy

theorem Closed.deliver {s : Session} (h : Closed s) {op : Op} {c : Completion}
    (hf : Flight.mk op (some c) ∈ s.flights) (a : Answers) : Closed (s.deliver op c a) := by
  obtain ⟨hop,d,hd,hok⟩ := h.spent _ hf
  obtain rfl : c = d := Option.some.inj hd
  have hclosing : (s.failing op c).closing = true := h.closing
  rw [deliver_failed s hop hok,close_of_closing hclosing]
  exact ⟨h.closing,fun f hf => h.spent f (List.mem_of_mem_erase hf),h.safe.congr rfl rfl⟩

theorem ending_disposes (s : Session) (socket : SocketId) (a : Answers) :
    (s.ending socket a).countP (Effect.disposes socket) = 1 := by
  unfold ending
  split <;> simp [Effect.disposes]

/-- A session that closes while it relays has come to its end, unless a success is still to be
delivered or a failure of the upstream was overlooked. -/
theorem closed_of_relaying {s : Session} {socket : SocketId} (hr : ∀ f ∈ s.flights, f.op ≠ .connect)
    (hc : s.closing = false) (hcalm : ∀ e ∈ s.log, e.calm = true) (hu : s.upstream = some socket)
    (hdown : s.downToUpBuf.isSome = true) (hup : s.upToDownBuf.isSome = true)
    (honly : ∀ other, .connected other ∈ s.log → other = socket)
    (hspent : ∀ f ∈ s.flights, ∀ c, f.completion = some c → c.ok = false) {a : Answers}
    (hhealthy : s.upstreamHealthy = true → a.upstreamOpen = true →
      s.log.any Effect.upstreamFailed = false) : Closed (s.close a) := by
  obtain ⟨down,hdown⟩ := Option.isSome_iff_exists.mp hdown
  obtain ⟨up,hup⟩ := Option.isSome_iff_exists.mp hup
  have hsafe := safe_of_calm hc hcalm
  rw [close_relaying hc hu hdown hup]
  refine ⟨rfl,?_,?_,?_,?_,?_⟩
  · intro f hf
    obtain ⟨g',hg',rfl⟩ := List.mem_map.mp hf
    obtain ⟨g,hg,rfl⟩ := List.mem_map.mp hg'
    exact abort_spent (hr g hg) (hspent g hg)
  · have hvalid := hsafe.valid
    unfold ending
    split <;> simpa using hvalid
  · refine (atEvery_append _ _ _).mpr ⟨hsafe.quiet,?_⟩
    unfold ending
    split <;> simp [Effect.starts]
  · intro other hmem
    have hother : other = socket := by
      refine honly other ?_
      have hending : ∀ e ∈ s.ending socket a, e ≠ .connected other := by
        unfold ending
        split <;> simp
      simp only [List.mem_append,List.mem_cons,List.not_mem_nil,reduceCtorEq,or_false,false_or] at hmem
      exact hmem.resolve_right fun h => hending _ h rfl
    have hbefore : s.log.countP (Effect.disposes other) = 0 := by
      refine List.countP_eq_zero.mpr fun e he hd => ?_
      have := hcalm e he
      rw [Effect.not_calm_of_disposes hd] at this
      cases this
    subst hother
    rw [List.countP_append,hbefore]
    simp [Effect.disposes,ending_disposes]
  · refine (atEvery_append _ _ _).mpr ⟨hsafe.healthy,?_⟩
    unfold ending
    split
    next hrel =>
      obtain ⟨hh,ho⟩ := Bool.and_eq_true _ _ |>.mp hrel
      have hnone : (s.log ++ [Effect.closeDownstream,.cancelUpstream]).any Effect.upstreamFailed =
          false := by
        rw [List.any_append,hhealthy hh ho]
        rfl
      rw [List.any_eq_false] at hnone
      simpa [Effect.releases] using hnone
    next => simp [Effect.releases]

theorem Open.finish {s : Session} (h : Open s) {op : Op} (hf : Flight.mk op none ∈ s.flights)
    (c : Completion) : Open (s.finish op c) := by
  have hmem : ∀ f ∈ s.flights.erase ⟨op,none⟩ ++ [Flight.mk op (some c)],
      f ∈ s.flights ∨ f = ⟨op,some c⟩ := by
    intro f hf
    rcases List.mem_append.mp hf with hf | hf
    · exact .inl (List.mem_of_mem_erase hf)
    · exact .inr (List.mem_singleton.mp hf)
  refine ⟨h.closing,?_,?_,?_,?_⟩
  · exact List.forall_mem_append.mpr ⟨h.calm,by simp [Effect.calm]⟩
  · intro f hf d hd
    rcases hmem f hf with hf | rfl
    · exact List.mem_append_left _ (h.noted f hf d hd)
    · cases hd
      exact List.mem_append_right _ (List.mem_singleton_self _)
  · intro hany
    have hany' : (s.log ++ [Effect.finished op c.ok]).any Effect.upstreamFailed = true := hany
    rw [List.any_append,Bool.or_eq_true] at hany'
    rcases hany' with hold | hnew
    · obtain ⟨f,hf,hop,d,hd,hok⟩ := h.queued hold
      have hne : f ≠ ⟨op,none⟩ := by
        rintro rfl
        cases hd
      exact ⟨f,List.mem_append_left _ ((List.mem_erase_of_ne hne).mpr hf),hop,d,hd,hok⟩
    · obtain ⟨hop,hok⟩ : op.onUpstream = true ∧ c.ok = false := by
        simpa [Effect.upstreamFailed] using hnew
      exact ⟨⟨op,some c⟩,List.mem_append_right _ (List.mem_singleton_self _),hop,c,rfl,hok⟩
  · rcases h.phase with ⟨hu,d,hflights⟩ | ⟨socket,hr⟩
    · rw [hflights] at hf
      obtain ⟨rfl,rfl⟩ : op = .connect ∧ none = d := by simpa using hf
      refine .inl ⟨⟨hu.upstream,hu.healthy,hu.downToUpBuf,hu.upToDownBuf,?_,?_⟩,some c,?_⟩
      · intro socket hmem
        rcases List.mem_append.mp hmem with hmem | hmem
        · exact hu.unconnected socket hmem
        · cases List.mem_singleton.mp hmem
      · exact (List.any_append ..).trans (by rw [hu.unfailed]; rfl)
      · simp [Session.finish,emit,hflights]
    · refine .inr ⟨socket,?_,hr.upstream,hr.healthy,hr.downToUpBuf,hr.upToDownBuf,?_⟩
      · intro f hf'
        rcases hmem f hf' with hf' | rfl
        · exact hr.connected f hf'
        · exact hr.connected ⟨op,none⟩ hf
      · intro other hother
        rcases List.mem_append.mp hother with hother | hother
        · exact hr.only other hother
        · cases List.mem_singleton.mp hother

theorem Effect.calm_of_ofLoop {e : Effect} (h : e.ofLoop = true) :
    e.calm = true ∧ e.upstreamFailed = false := by
  cases e <;> first | exact ⟨rfl,rfl⟩ | cases h

/-- A success lets a session that relays go on. -/
theorem Open.deliver_relaying {s : Session} (h : Open s) {socket : SocketId}
    (hr : Relaying s socket) {op : Op} {c : Completion} (hf : Flight.mk op (some c) ∈ s.flights)
    (hok : c.ok = true) (a : Answers) : Open (s.deliver op c a) := by
  have herased : Relaying { s with flights := s.flights.erase ⟨op,some c⟩ } socket :=
    ⟨fun f hf => hr.connected f (List.mem_of_mem_erase hf),hr.upstream,hr.healthy,hr.downToUpBuf,
      hr.upToDownBuf,hr.only⟩
  obtain ⟨down,up,op',entries,hop',hloop,heq⟩ := handle_relaying herased (hr.connected _ hf) hok a
  rw [Session.deliver,heq]
  have hmem : ∀ f ∈ s.flights.erase ⟨op,some c⟩ ++ [Flight.mk op' none],
      f ∈ s.flights ∨ f = ⟨op',none⟩ := by
    intro f hf
    rcases List.mem_append.mp hf with hf | hf
    · exact .inl (List.mem_of_mem_erase hf)
    · exact .inr (List.mem_singleton.mp hf)
  refine ⟨h.closing,?_,?_,?_,.inr ⟨socket,?_,hr.upstream,hr.healthy,rfl,rfl,?_⟩⟩
  · exact List.forall_mem_append.mpr
      ⟨h.calm,fun e he => (Effect.calm_of_ofLoop (hloop e he)).1⟩
  · intro f hf d hd
    rcases hmem f hf with hf | rfl
    · exact List.mem_append_left _ (h.noted f hf d hd)
    · cases hd
  · intro hany
    have hany' : (s.log ++ entries).any Effect.upstreamFailed = true := hany
    have hnew : entries.any Effect.upstreamFailed = false := by
      rw [List.any_eq_false]
      exact fun e he => by simp [(Effect.calm_of_ofLoop (hloop e he)).2]
    rw [List.any_append,hnew,Bool.or_false] at hany'
    obtain ⟨f,hf,hop,d,hd,hfailed⟩ := h.queued hany'
    have hne : f ≠ ⟨op,some c⟩ := by
      rintro rfl
      cases hd
      rw [hok] at hfailed
      cases hfailed
    exact ⟨f,List.mem_append_left _ ((List.mem_erase_of_ne hne).mpr hf),hop,d,hd,hfailed⟩
  · intro f hf
    rcases hmem f hf with hf | rfl
    · exact hr.connected f hf
    · exact hop'
  · intro other hother
    rcases List.mem_append.mp hother with hother | hother
    · exact hr.only other hother
    · cases hloop _ hother

theorem onConnected_socket (s : Session) {c : Completion} {socket : SocketId} (hok : c.ok = true)
    (hs : c.socket = some socket) (a : Answers) :
    s.onConnected c a = { s with
      upstream := some socket
      downToUpBuf := some a.downToUp
      upToDownBuf := some a.upToDown
      flights := s.flights ++ [⟨.readDownstream,none⟩,⟨.readUpstream,none⟩]
      log := s.log ++ [.connected socket,.acquireBuffer a.downToUp.id,.acquireBuffer a.upToDown.id,
        .readDownstream,.readUpstream] } := by
  simp [onConnected,hok,hs,onUpstreamReady,relayDownstreamToUpstream,relayUpstreamToDownstream,emit,
    begin_]

theorem onConnected_failed (s : Session) {c : Completion} (h : c.ok = false ∨ c.socket = none)
    (a : Answers) : s.onConnected c a =
      { s.emit .upstreamConnectError with upstreamHealthy := false }.close a := by
  unfold onConnected
  split
  next hok hs =>
    rcases h with h | h
    · rw [hok] at h
      cases h
    · rw [hs] at h
      cases h
  next => rfl

theorem failed_of_not {c : Completion} (h : ¬(c.ok = true ∧ ∃ socket, c.socket = some socket)) :
    c.ok = false ∨ c.socket = none := by
  rw [not_and_or,Bool.not_eq_true,not_exists] at h
  exact h.imp_right Option.eq_none_iff_forall_ne_some.mpr

/-- The connection is there and both loops start, or the session ends without one. -/
theorem open_onConnected {s : Session} (hu : Unconnected s) (hc : s.closing = false)
    (hcalm : ∀ e ∈ s.log, e.calm = true) (hflights : s.flights = []) (c : Completion)
    (a : Answers) : Open (s.onConnected c a) ∨ Closed (s.onConnected c a) := by
  by_cases hs : c.ok = true ∧ ∃ socket, c.socket = some socket
  · obtain ⟨hok,socket,hs⟩ := hs
    rw [onConnected_socket s hok hs,hflights]
    refine .inl ⟨hc,?_,?_,?_,.inr ⟨socket,?_,rfl,hu.healthy,rfl,rfl,?_⟩⟩
    · exact List.forall_mem_append.mpr ⟨hcalm,by simp [Effect.calm]⟩
    · simp
    · intro hany
      simp [hu.unfailed,Effect.upstreamFailed] at hany
    · simp
    · intro other hother
      rcases List.mem_append.mp hother with hother | hother
      · exact absurd hother (hu.unconnected other)
      · simpa using hother
  · have hfailed := failed_of_not hs
    have hcalm' : ∀ e ∈ s.log ++ [.upstreamConnectError], e.calm = true :=
      List.forall_mem_append.mpr ⟨hcalm,by simp [Effect.calm]⟩
    have hsafe : ShutdownSafe { s.emit .upstreamConnectError with upstreamHealthy := false } :=
      safe_of_calm hc hcalm'
    have hclose := close_unconnected
      (s := { s.emit .upstreamConnectError with upstreamHealthy := false }) hc hu.upstream
      hu.downToUpBuf hu.upToDownBuf a
    rw [onConnected_failed s hfailed,hclose]
    refine .inr ⟨rfl,?_,?_,?_,?_,?_⟩
    · simp [emit,hflights]
    · have hvalid := hsafe.valid
      simpa using hvalid
    · exact (atEvery_append _ _ _).mpr ⟨hsafe.quiet,by simp [Effect.starts]⟩
    · intro socket hmem
      have hun := hu.unconnected socket
      simp [emit,hun] at hmem
    · exact (atEvery_append _ _ _).mpr ⟨hsafe.healthy,by simp [Effect.releases]⟩

theorem open_start (endpoint : ℕ) (pooled : Option SocketId) (a : Answers) :
    Open (start endpoint pooled a) ∨ Closed (start endpoint pooled a) := by
  let s : Session := { endpointIndex := endpoint
                       log := [.onAccept,.selectEndpoint endpoint,.acquireConnection endpoint] }
  have hu : Unconnected s := ⟨rfl,rfl,rfl,rfl,by simp [s],rfl⟩
  have hcalm : ∀ e ∈ s.log, e.calm = true := by simp [s,Effect.calm]
  cases pooled with
  | some socket => exact open_onConnected hu rfl hcalm rfl ⟨true,[],0,some socket⟩ a
  | none =>
    have hu' : Unconnected (s.begin_ .connect) := ⟨rfl,rfl,rfl,rfl,hu.unconnected,rfl⟩
    refine .inl ⟨rfl,hcalm,?_,(fun h => by cases h),.inl ⟨hu',none,rfl⟩⟩
    intro f hf c hc
    obtain rfl : f = ⟨.connect,none⟩ := by simpa [start,begin_] using hf
    cases hc

/-- The connection attempt is all that is in flight before there is a connection. -/
theorem Open.deliver_connect {s : Session} (h : Open s) (hu : Unconnected s)
    {d : Option Completion} (hflights : s.flights = [⟨.connect,d⟩]) {op : Op} {c : Completion}
    (hf : Flight.mk op (some c) ∈ s.flights) (a : Answers) :
    Open (s.deliver op c a) ∨ Closed (s.deliver op c a) := by
  rw [hflights] at hf
  obtain ⟨rfl,rfl⟩ : op = .connect ∧ some c = d := by simpa using hf
  have hnone : s.flights.erase ⟨.connect,some c⟩ = [] := by simp [hflights]
  exact open_onConnected (s := { s with flights := s.flights.erase ⟨.connect,some c⟩ })
    ⟨hu.upstream,hu.healthy,hu.downToUpBuf,hu.upToDownBuf,hu.unconnected,hu.unfailed⟩ h.closing
    h.calm hnone c a

/-- A failure that is delivered while nothing else is in the way ends the session. -/
theorem Open.deliver_failed {s : Session} (h : Open s) {socket : SocketId}
    (hr : Relaying s socket) {op : Op} {c : Completion} (hf : Flight.mk op (some c) ∈ s.flights)
    (hok : c.ok = false) {a : Answers} (hu : Undisturbed s (.deliver op c a)) :
    Closed (s.deliver op c a) := by
  have hquiet := hu hok h.closing
  have hrest : ∀ f ∈ s.flights.erase ⟨op,some c⟩, f.op ≠ .connect :=
    fun f hf => hr.connected f (List.mem_of_mem_erase hf)
  have hspent : ∀ f ∈ s.flights.erase ⟨op,some c⟩, ∀ d, f.completion = some d → d.ok = false :=
    fun f hf d hd => (hquiet f hf d hd).1
  rw [Session.deliver_failed s (hr.connected _ hf) hok]
  refine closed_of_relaying (s := s.failing op c) hrest h.closing h.calm hr.upstream
    hr.downToUpBuf hr.upToDownBuf hr.only hspent ?_
  intro hhealthy hopen
  have hdown : op.onUpstream = false := by
    simpa [failing,hr.healthy] using hhealthy
  by_contra hfailed
  obtain ⟨f,hf',hop,d,hd,-⟩ := h.queued (by simpa [failing] using hfailed)
  have hne : f ≠ ⟨op,some c⟩ := by
    rintro rfl
    rw [hdown] at hop
    cases hop
  have hother := (hquiet f ((List.mem_erase_of_ne hne).mpr hf') d hd).2 hdown hopen
  rw [hop] at hother
  cases hother

/-- What an open session becomes in a step. -/
theorem Open.next {s : Session} (h : Open s) {bufferSize : ℕ} {e : Event}
    (he : Enabled bufferSize s e) (hu : Undisturbed s e) :
    Open (s.next e) ∨ Closed (s.next e) := by
  cases e with
  | finish op c => exact .inl (h.finish he.1 c)
  | deliver op c a =>
    rcases h.phase with ⟨hun,d,hflights⟩ | ⟨socket,hr⟩
    · exact h.deliver_connect hun hflights he.1 a
    · cases hok : c.ok with
      | true => exact .inl (h.deliver_relaying hr he.1 hok a)
      | false => exact .inr (h.deliver_failed hr he.1 hok hu)

theorem Closed.next {s : Session} (h : Closed s) {bufferSize : ℕ} {e : Event}
    (he : Enabled bufferSize s e) : Closed (s.next e) := by
  cases e with
  | finish op c =>
    obtain ⟨d,hd,-⟩ := (h.spent _ he.1).2
    cases hd
  | deliver op c a => exact h.deliver he.1 a

theorem open_of_reaches {bufferSize : ℕ} {s : Session}
    (h : (system bufferSize).ReachesWhen Undisturbed s) : Open s ∨ Closed s := by
  refine System.ReachesWhen.invariant (I := fun s => Open s ∨ Closed s) ?_ ?_ h
  · rintro s ⟨endpoint,pooled,a,-,rfl⟩
    exact open_start endpoint pooled a
  · rintro s e s' (hopen | hclosed) hu ⟨he,rfl⟩
    · exact hopen.next he hu
    · exact .inr (hclosed.next he)

theorem closing_close {s : Session} (h : s.closing = true) (a : Answers) :
    (s.close a).closing = true :=
  (congrArg Session.closing (close_of_closing h a)).trans h

theorem closing_ok (s : Session) {op : Op} (hop : op ≠ .connect) {c : Completion}
    (hok : c.ok = true) (a : Answers) : (s.handle op c a).closing = s.closing := by
  cases op with
  | connect => exact absurd rfl hop
  | _ =>
    simp only [handle,onDownstreamRead,onUpstreamWritten,onUpstreamRead,onDownstreamWritten,
      relayDownstreamToUpstream,relayUpstreamToDownstream,hok,Bool.not_true,Bool.false_eq_true,
      if_false]
    split <;> rfl

theorem closing_handle {s : Session} (h : s.closing = true) (op : Op) (c : Completion)
    (a : Answers) : (s.handle op c a).closing = true := by
  by_cases hop : op = .connect
  · subst hop
    by_cases hs : c.ok = true ∧ ∃ socket, c.socket = some socket
    · obtain ⟨hok,socket,hs⟩ := hs
      exact (congrArg Session.closing (onConnected_socket s hok hs a)).trans h
    · refine (congrArg Session.closing (onConnected_failed s (failed_of_not hs) a)).trans ?_
      refine closing_close ?_ a
      exact h
  · cases hok : c.ok with
    | true => exact (closing_ok s hop hok a).trans h
    | false =>
      rw [handle_failed s hop hok]
      refine closing_close ?_ a
      exact h

/-- A session that is closing stays so. -/
theorem closing_next {s : Session} (h : s.closing = true) (e : Event) :
    (s.next e).closing = true := by
  cases e with
  | finish op c => exact h
  | deliver op c a =>
    refine closing_handle ?_ op c a
    exact h

theorem Open.next_or_closing {s : Session} (h : Open s) {bufferSize : ℕ} {e : Event}
    (he : Enabled bufferSize s e) : (s.next e).closing = true ∨ Open (s.next e) := by
  cases e with
  | finish op c => exact .inr (h.finish he.1 c)
  | deliver op c a =>
    rcases h.phase with ⟨hun,d,hflights⟩ | ⟨socket,hr⟩
    · exact (h.deliver_connect hun hflights he.1 a).symm.imp_left Closed.closing
    · cases hok : c.ok with
      | true => exact .inr (h.deliver_relaying hr he.1 hok a)
      | false =>
        rw [Session.next,Session.deliver_failed s (hr.connected _ he.1) hok]
        obtain ⟨down,hdown⟩ := Option.isSome_iff_exists.mp hr.downToUpBuf
        obtain ⟨up,hup⟩ := Option.isSome_iff_exists.mp hr.upToDownBuf
        exact .inl (congrArg Session.closing
          (close_relaying (s := s.failing op c) h.closing hr.upstream hdown hup a))

/-- Whatever is delivered in whatever order, a session that is not closing is in order. -/
theorem open_of_not_closing {bufferSize : ℕ} {s : Session} (h : (system bufferSize).Reaches s)
    (hc : s.closing = false) : Open s := by
  have hopen : s.closing = true ∨ Open s := by
    refine System.Reaches.invariant (I := fun s => s.closing = true ∨ Open s) ?_ ?_ h
    · rintro s ⟨endpoint,pooled,a,-,rfl⟩
      exact (open_start endpoint pooled a).symm.imp_left Closed.closing
    · rintro s e s' (hclosing | hopen) ⟨he,rfl⟩
      · exact .inl (closing_next hclosing e)
      · exact hopen.next_or_closing he
  exact hopen.resolve_left (by simp [hc])

/-- A success that is delivered when the buffers are gone is fatal. -/
theorem nullPointer_of_ok {s : Session} (hdown : s.downToUpBuf = none) (hup : s.upToDownBuf = none)
    {op : Op} (hop : op ≠ .connect) {c : Completion} (hok : c.ok = true) (a : Answers) :
    .nullPointer ∈ (s.handle op c a).log := by
  obtain ⟨upstream,index,healthy,downBuf,upBuf,closing,flights,log⟩ := s
  obtain rfl : downBuf = none := hdown
  obtain rfl : upBuf = none := hup
  cases op with
  | connect => exact absurd rfl hop
  | _ => simp [handle,onDownstreamRead,onUpstreamWritten,onUpstreamRead,onDownstreamWritten,
      relayDownstreamToUpstream,relayUpstreamToDownstream,hok,emit]

/-- What was in the way of the end of a session has its consequences in the next step but one. -/
theorem Open.disturbed {s : Session} (h : Open s) {bufferSize : ℕ} {e : Event}
    (he : Enabled bufferSize s e) (hu : ¬Undisturbed s e) :
    ¬ShutdownSafe (s.next e) ∨
      ∃ e', Enabled bufferSize (s.next e) e' ∧ ¬ShutdownSafe ((s.next e).next e') := by
  cases e with
  | finish op c => exact absurd trivial hu
  | deliver op c a =>
    unfold Undisturbed at hu
    push Not at hu
    obtain ⟨hok,hc,f,hf,d,hd,hbad⟩ := hu
    have hmem := List.mem_of_mem_erase hf
    obtain ⟨socket,hr⟩ := h.phase.resolve_left (by
      rintro ⟨-,d',hflights⟩
      have hone := he.1
      rw [hflights,List.mem_singleton] at hone
      rw [hflights,hone,List.erase_cons_head] at hf
      cases hf)
    obtain ⟨down,hdown⟩ := Option.isSome_iff_exists.mp hr.downToUpBuf
    obtain ⟨up,hup⟩ := Option.isSome_iff_exists.mp hr.upToDownBuf
    have hnext := (Session.deliver_failed s (hr.connected _ he.1) hok a).trans
      (close_relaying (s := s.failing op c) hc hr.upstream hdown hup a)
    cases hdok : d.ok with
    | true =>
      refine .inr ⟨.deliver f.op d a,⟨?_,he.2⟩,fun hsafe => hsafe.valid ?_⟩
      · obtain ⟨fop,fc⟩ := f
        obtain rfl : fc = some d := hd
        rw [Session.next,hnext]
        have hkept : ∀ onSocket, abort onSocket ⟨fop,some d⟩ = ⟨fop,some d⟩ := by simp [abort]
        exact List.mem_map.mpr ⟨_,List.mem_map.mpr ⟨_,hf,hkept _⟩,hkept _⟩
      · rw [Session.next,Session.next,hnext]
        exact nullPointer_of_ok rfl rfl (hr.connected f hmem) hdok a
    | false =>
      obtain ⟨hdown',hopen,hup'⟩ := hbad hdok
      refine .inl fun hsafe => ?_
      rw [Session.next,hnext] at hsafe
      have hnoted : .finished f.op false ∈ s.log := hdok ▸ h.noted f hmem d hd
      have hending : (s.failing op c).ending socket a =
          [.cancelUpstream,.releaseConnection s.endpointIndex socket] := by
        simp [ending,failing,hr.healthy,hdown',hopen]
      have hfailed := (atEvery_iff _ _).mp hsafe.healthy
        (s.log ++ [.closeDownstream,.cancelUpstream]) (.releaseConnection s.endpointIndex socket)
        [.releaseBuffer down,.releaseBuffer up,.onClose]
        (by rw [hending]; simp [failing]) rfl
      rw [List.any_eq_false] at hfailed
      have hup'' : f.op.onUpstream = true := by simpa using hup'
      exact hfailed _ (List.mem_append_left _ hnoted) (by simp [Effect.upstreamFailed,hup''])

theorem not_closing_of_disturbed {s : Session} {e : Event} (h : ¬Undisturbed s e) :
    s.closing = false := by
  cases e with
  | finish op c => exact absurd trivial h
  | deliver op c a =>
    by_contra hc
    exact h fun _ hopen => absurd hopen hc

/-- Every run that nothing disturbs is safe, and every run that something disturbs can become
unsafe with its next delivery. -/
theorem safe_while_undisturbed (bufferSize : ℕ) :
    (∀ s, (system bufferSize).ReachesWhen Undisturbed s → ShutdownSafe s) ∧
    ∀ s e, (system bufferSize).Reaches s → Enabled bufferSize s e → ¬Undisturbed s e →
      ¬ShutdownSafe (s.next e) ∨
        ∃ e', Enabled bufferSize (s.next e) e' ∧ ¬ShutdownSafe ((s.next e).next e') := by
  constructor
  · intro s h
    rcases open_of_reaches h with hopen | hclosed
    · exact safe_of_calm hopen.closing hopen.calm
    · exact hclosed.safe
  · intro s e h he hu
    exact (open_of_not_closing h (not_closing_of_disturbed hu)).disturbed he hu

/-- The events are admitted one after the other, and satisfy a side condition. -/
def Follows (bufferSize : ℕ) (allowed : Session → Event → Prop) : Session → List Event → Prop
  | _,[] => True
  | s,e::es => Enabled bufferSize s e ∧ allowed s e ∧ Follows bufferSize allowed (s.next e) es

instance Follows.decidable (bufferSize : ℕ) (allowed : Session → Event → Prop)
    [∀ s e, Decidable (allowed s e)] : ∀ s es, Decidable (Follows bufferSize allowed s es)
  | _,[] => inferInstanceAs (Decidable True)
  | s,e::es =>
    have := Follows.decidable bufferSize allowed (s.next e) es
    inferInstanceAs (Decidable (_ ∧ _ ∧ _))

theorem reaches_foldl {bufferSize : ℕ} {allowed : Session → Event → Prop} {s : Session}
    (h : (system bufferSize).ReachesWhen allowed s) {es : List Event}
    (hf : Follows bufferSize allowed s es) :
    (system bufferSize).ReachesWhen allowed (es.foldl next s) := by
  induction es generalizing s with
  | nil => exact h
  | cons e es ih => exact ih (h.step hf.2.1 ⟨hf.1,rfl⟩) hf.2.2

def twoBuffers : Answers := ⟨⟨0,List.replicate 8 0⟩,⟨1,List.replicate 8 0⟩,true⟩

/-- A session that relays what the client has sent; then the client goes away. -/
def orderlyEvents : List Event :=
  [.finish .connect ⟨true,[],0,some 7⟩,.deliver .connect ⟨true,[],0,some 7⟩ twoBuffers,
    .finish .readDownstream ⟨true,ascii "x",0,none⟩,
    .deliver .readDownstream ⟨true,ascii "x",0,none⟩ twoBuffers,
    .finish (.writeUpstream (ascii "x")) ⟨true,[],1,none⟩,
    .deliver (.writeUpstream (ascii "x")) ⟨true,[],1,none⟩ twoBuffers,
    .finish .readDownstream ⟨false,[],0,none⟩,.deliver .readDownstream ⟨false,[],0,none⟩ twoBuffers]

/-- The upstream fails after the client has sent something, and the failure is delivered
first. -/
def crossedEvents : List Event :=
  [.finish .connect ⟨true,[],0,some 7⟩,.deliver .connect ⟨true,[],0,some 7⟩ twoBuffers,
    .finish .readDownstream ⟨true,ascii "x",0,none⟩,.finish .readUpstream ⟨false,[],0,none⟩,
    .deliver .readUpstream ⟨false,[],0,none⟩ twoBuffers]

theorem safe_while_undisturbed_two :
    ShutdownSafe (orderlyEvents.foldl next (start 0 none twoBuffers)) ∧
    (¬ShutdownSafe (crossedEvents.foldl next (start 0 none twoBuffers)) ∨
      ∃ e', Enabled 8 (crossedEvents.foldl next (start 0 none twoBuffers)) e' ∧
        ¬ShutdownSafe ((crossedEvents.foldl next (start 0 none twoBuffers)).next e')) :=
  ⟨(safe_while_undisturbed 8).1 _ (reaches_foldl (.initial ⟨0,none,twoBuffers,by decide,rfl⟩)
      (by decide)),
    (safe_while_undisturbed 8).2 (crossedEvents.dropLast.foldl next (start 0 none twoBuffers))
      (.deliver .readUpstream ⟨false,[],0,none⟩ twoBuffers)
      (reaches_foldl (.initial ⟨0,none,twoBuffers,by decide,rfl⟩) (by decide)) (by decide)
      (by decide)⟩

/-- The handler of what the client has sent runs after `close` and finds no upstream. -/
theorem null_after_close : ¬∀ (bufferSize : ℕ) (s : Session), (system bufferSize).Reaches s →
    ShutdownSafe s := by
  intro h
  have hreach : (system 8).Reaches ((crossedEvents ++
      [Event.deliver .readDownstream ⟨true,ascii "x",0,none⟩ twoBuffers]).foldl next
        (start 0 none twoBuffers)) :=
    reaches_foldl (.initial ⟨0,none,twoBuffers,by decide,rfl⟩) (by decide)
  exact (h 8 _ hreach).valid (by decide)

end Session
end PerCoreShard
