import Mathlib.Logic.Function.Basic
import PerCoreShard.Session.Shutdown

/-! What a `Session` relays. In each direction the bytes that were written are those that were
read, in their order, and what was read but not written is never more than one buffer. -/
namespace PerCoreShard
open Library

namespace Session

/-- The directions of the relay. -/
inductive Way
  | downToUp
  | upToDown
  deriving DecidableEq, Repr

def Way.read : Way → Op
  | .downToUp => .readDownstream
  | .upToDown => .readUpstream

def Way.write (data : Bytes) : Way → Op
  | .downToUp => .writeUpstream data
  | .upToDown => .writeDownstream data

def Op.way : Op → Option Way
  | .connect => none
  | .readDownstream | .writeUpstream _ => some .downToUp
  | .readUpstream | .writeDownstream _ => some .upToDown

/-- The bytes read and written so far. -/
structure Traffic where
  read : Way → Bytes := fun _ => []
  written : Way → Bytes := fun _ => []

namespace Traffic

def hasRead (τ : Traffic) (w : Way) (data : Bytes) : Traffic :=
  { τ with read := Function.update τ.read w (τ.read w ++ data) }

def hasWritten (τ : Traffic) (w : Way) (data : Bytes) : Traffic :=
  { τ with written := Function.update τ.written w (τ.written w ++ data) }

/-- What the end of an operation adds. A write that fails has written some of its bytes. -/
def record (τ : Traffic) : Event → Traffic
  | .finish .readDownstream c => τ.hasRead .downToUp (if c.ok then c.data else [])
  | .finish .readUpstream c => τ.hasRead .upToDown (if c.ok then c.data else [])
  | .finish (.writeUpstream data) c =>
    τ.hasWritten .downToUp (if c.ok then data else data.take c.written)
  | .finish (.writeDownstream data) c =>
    τ.hasWritten .upToDown (if c.ok then data else data.take c.written)
  | _ => τ

end Traffic

/-- A session together with what it has read and written. -/
def relaySystem (bufferSize : ℕ) : System (Session × Traffic) Event where
  initial p := (system bufferSize).initial p.1 ∧ p.2 = {}
  step p e p' := (system bufferSize).step p.1 e p'.1 ∧ p'.2 = p.2.record e

@[simp] theorem way_read (w : Way) : w.read.way = some w := by cases w <;> rfl
@[simp] theorem way_write (w : Way) (data : Bytes) : (w.write data).way = some w := by
  cases w <;> rfl

theorem op_cases {op : Op} (h : op ≠ .connect) :
    ∃ w : Way, op = w.read ∨ ∃ data, op = w.write data := by
  cases op with
  | connect => exact absurd rfl h
  | readDownstream => exact ⟨.downToUp,.inl rfl⟩
  | writeUpstream data => exact ⟨.downToUp,.inr ⟨data,rfl⟩⟩
  | readUpstream => exact ⟨.upToDown,.inl rfl⟩
  | writeDownstream data => exact ⟨.upToDown,.inr ⟨data,rfl⟩⟩

theorem record_read (τ : Traffic) (w : Way) (c : Completion) :
    τ.record (.finish w.read c) = τ.hasRead w (if c.ok then c.data else []) := by
  cases w <;> rfl

theorem record_write (τ : Traffic) (w : Way) (data : Bytes) (c : Completion) :
    τ.record (.finish (w.write data) c) =
      τ.hasWritten w (if c.ok then data else data.take c.written) := by
  cases w <;> rfl

theorem record_elsewhere {τ : Traffic} {op : Op} {c : Completion} {w : Way}
    (h : op.way ≠ some w) : (τ.record (.finish op c)).read w = τ.read w ∧
      (τ.record (.finish op c)).written w = τ.written w := by
  by_cases hop : op = .connect
  · subst hop
    exact ⟨rfl,rfl⟩
  · obtain ⟨v,rfl | ⟨data,rfl⟩⟩ := op_cases hop
    · have hv : w ≠ v := fun heq => h (heq ▸ way_read v)
      rw [record_read]
      exact ⟨Function.update_of_ne hv ..,rfl⟩
    · have hv : w ≠ v := fun heq => h (heq ▸ way_write v data)
      rw [record_write]
      exact ⟨rfl,Function.update_of_ne hv ..⟩

def onWay (flights : List Flight) (w : Way) : List Flight :=
  flights.filter fun f => f.op.way = some w

/-- What a flight of the direction says about the bytes that are read and not yet written. -/
inductive Carries (w : Way) (rest : Bytes) : Flight → Prop
  | reading (h : rest = []) : Carries w rest ⟨w.read,none⟩
  | read (c : Completion) (h : c.ok = true → rest = c.data) : Carries w rest ⟨w.read,some c⟩
  | writing : Carries w rest ⟨w.write rest,none⟩
  | written (data : Bytes) (c : Completion) (h : c.ok = true → rest = []) :
    Carries w rest ⟨w.write data,some c⟩

/-- One direction of the relay, with the bytes that are read and not yet written. -/
structure Piped (bufferSize : ℕ) (flights : List Flight) (τ : Traffic) (w : Way) (rest : Bytes) :
    Prop where
  order : τ.read w = τ.written w ++ rest
  bounded : rest.length ≤ bufferSize
  flights : onWay flights w = [] ∨ ∃ f, onWay flights w = [f] ∧ Carries w rest f

theorem write_injective (w : Way) : Function.Injective w.write := by
  intro data data' h
  cases w <;> injection h

theorem read_ne_write (w : Way) (data : Bytes) : w.read ≠ w.write data := by
  cases w <;> exact Op.noConfusion

/-- While a read is under way, everything that was read is written. -/
theorem Carries.of_reading {w : Way} {rest : Bytes} (h : Carries w rest ⟨w.read,none⟩) :
    rest = [] := by
  generalize hf : (⟨w.read,none⟩ : Flight) = f at h
  cases h with
  | reading hr => exact hr
  | writing => exact absurd (Flight.mk.inj hf).1 (read_ne_write w rest)
  | read | written => exact absurd (Flight.mk.inj hf).2 nofun

theorem Carries.of_writing {w : Way} {rest data : Bytes}
    (h : Carries w rest ⟨w.write data,none⟩) : rest = data := by
  generalize hf : (⟨w.write data,none⟩ : Flight) = f at h
  cases h with
  | reading => exact absurd (Flight.mk.inj hf).1.symm (read_ne_write w data)
  | writing => exact (write_injective w (Flight.mk.inj hf).1).symm
  | read | written => exact absurd (Flight.mk.inj hf).2 nofun

theorem Carries.of_read {w : Way} {rest : Bytes} {c : Completion}
    (h : Carries w rest ⟨w.read,some c⟩) (hc : c.ok = true) : rest = c.data := by
  generalize hf : (⟨w.read,some c⟩ : Flight) = f at h
  cases h with
  | read c' hr =>
    obtain rfl := Option.some.inj (Flight.mk.inj hf).2
    exact hr hc
  | written => exact absurd (Flight.mk.inj hf).1 (read_ne_write w _)
  | reading | writing => exact absurd (Flight.mk.inj hf).2 nofun

theorem Carries.of_written {w : Way} {rest data : Bytes} {c : Completion}
    (h : Carries w rest ⟨w.write data,some c⟩) (hc : c.ok = true) : rest = [] := by
  generalize hf : (⟨w.write data,some c⟩ : Flight) = f at h
  cases h with
  | written data' c' hr =>
    obtain rfl := Option.some.inj (Flight.mk.inj hf).2
    exact hr hc
  | read => exact absurd (Flight.mk.inj hf).1.symm (read_ne_write w data)
  | reading | writing => exact absurd (Flight.mk.inj hf).2 nofun

theorem mem_onWay {flights : List Flight} {w : Way} {f : Flight} :
    f ∈ onWay flights w ↔ f ∈ flights ∧ f.op.way = some w := by
  simp [onWay]

theorem onWay_append (flights more : List Flight) (w : Way) :
    onWay (flights ++ more) w = onWay flights w ++ onWay more w := List.filter_append ..

/-- A flight that is taken away is missing in its direction only. -/
theorem onWay_erase (flights : List Flight) (w : Way) (f : Flight) :
    onWay (flights.erase f) w =
      if f.op.way = some w then (onWay flights w).erase f else onWay flights w := by
  rw [onWay,← List.erase_filter]
  split
  next => rfl
  next hw => exact List.erase_of_not_mem fun hm => hw (mem_onWay.mp hm).2

/-- What `close` may do to a flight. -/
structure Aborts (g : Flight → Flight) : Prop where
  op : ∀ f, (g f).op = f.op
  completion : ∀ f, g f = f ∨ f.completion = none ∧ ∃ c, (g f).completion = some c ∧ c.ok = false

theorem aborts_abort (onSocket : Op → Bool) : Aborts (abort onSocket) where
  op f := by
    unfold abort
    split <;> rfl
  completion f := by
    unfold abort
    split
    next h =>
      simp only [Bool.and_eq_true,Option.isNone_iff_eq_none] at h
      exact .inr ⟨h.2,_,rfl,rfl⟩
    next => exact .inl rfl

theorem Aborts.comp {g g' : Flight → Flight} (h : Aborts g) (h' : Aborts g') :
    Aborts (g' ∘ g) where
  op f := (h'.op (g f)).trans (h.op f)
  completion f := by
    rcases h'.completion (g f) with heq | ⟨hn,c,hc,hfailed⟩
    · rcases h.completion f with heq' | ⟨hn,c,hc,hfailed⟩
      · exact .inl (heq.trans heq')
      · exact .inr ⟨hn,c,by rw [Function.comp_apply,heq,hc],hfailed⟩
    · rcases h.completion f with heq' | ⟨hn',-⟩
      · exact .inr ⟨heq' ▸ hn,c,hc,hfailed⟩
      · exact .inr ⟨hn',c,hc,hfailed⟩

theorem flights_releaseDownToUpBuf (s : Session) : s.releaseDownToUpBuf.flights = s.flights := by
  unfold releaseDownToUpBuf
  split <;> rfl

theorem flights_releaseUpToDownBuf (s : Session) : s.releaseUpToDownBuf.flights = s.flights := by
  unfold releaseUpToDownBuf
  split <;> rfl

theorem flights_giveUpUpstream (s : Session) (a : Answers) :
    (s.giveUpUpstream a).flights = s.flights ∨
      (s.giveUpUpstream a).flights = s.flights.map (abort Op.onUpstream) := by
  unfold giveUpUpstream
  split
  · exact .inl rfl
  · split <;> exact .inr rfl

theorem flights_close (s : Session) (a : Answers) :
    ∃ g, Aborts g ∧ (s.close a).flights = s.flights.map g := by
  unfold close
  split
  · exact ⟨id,⟨fun _ => rfl,fun _ => .inl rfl⟩,s.flights.map_id.symm⟩
  · have hdown := aborts_abort Op.onDownstream
    set t := ({ s with closing := true }.abortAll Op.onDownstream).emit .closeDownstream
    have hflights : (((t.giveUpUpstream a).releaseDownToUpBuf.releaseUpToDownBuf).emit .onClose).flights =
        (t.giveUpUpstream a).flights :=
      (flights_releaseUpToDownBuf _).trans (flights_releaseDownToUpBuf _)
    rw [hflights]
    rcases flights_giveUpUpstream t a with heq | heq <;> rw [heq]
    · exact ⟨_,hdown,rfl⟩
    · exact ⟨_,hdown.comp (aborts_abort Op.onUpstream),List.map_map⟩

theorem onWay_map {g : Flight → Flight} (h : Aborts g) (flights : List Flight) (w : Way) :
    onWay (flights.map g) w = (onWay flights w).map g := by
  rw [onWay,List.filter_map]
  congr 1
  exact List.filter_congr fun f _ => by simp [h.op f]

theorem Carries.abort {g : Flight → Flight} (h : Aborts g) {w : Way} {rest : Bytes} {f : Flight}
    (hf : Carries w rest f) : Carries w rest (g f) := by
  rcases h.completion f with heq | ⟨hn,c,hc,hfailed⟩
  · rwa [heq]
  · have heq : g f = ⟨f.op,some c⟩ := by
      rw [← h.op f,← hc]
    rw [heq]
    have hnot : ¬c.ok = true := by simp [hfailed]
    cases hf with
    | reading => exact .read c fun hok => absurd hok hnot
    | writing => exact .written _ c fun hok => absurd hok hnot
    | read => cases hn
    | written => cases hn

/-- A success is followed by the next operation of its direction, if there still is one. -/
theorem flights_read (s : Session) (w : Way) {c : Completion} (hc : c.ok = true) (a : Answers) :
    (s.handle w.read c a).flights = s.flights ∨
      (s.handle w.read c a).flights = s.flights ++ [⟨w.write c.data,none⟩] := by
  cases w with
  | downToUp =>
    change (s.onDownstreamRead c a).flights = _ ∨ (s.onDownstreamRead c a).flights = _
    rw [onDownstreamRead,if_neg (by simp [hc])]
    split
    · exact .inr rfl
    · exact .inl rfl
  | upToDown =>
    change (s.onUpstreamRead c a).flights = _ ∨ (s.onUpstreamRead c a).flights = _
    rw [onUpstreamRead,if_neg (by simp [hc])]
    split
    · exact .inr rfl
    · exact .inl rfl

theorem flights_written (s : Session) (w : Way) (data : Bytes) {c : Completion}
    (hc : c.ok = true) (a : Answers) : (s.handle (w.write data) c a).flights = s.flights ∨
      (s.handle (w.write data) c a).flights = s.flights ++ [⟨w.read,none⟩] := by
  cases w with
  | downToUp =>
    change (s.onUpstreamWritten c a).flights = _ ∨ (s.onUpstreamWritten c a).flights = _
    rw [onUpstreamWritten,if_neg (by simp [hc]),relayDownstreamToUpstream]
    split
    · exact .inr rfl
    · exact .inl rfl
  | upToDown =>
    change (s.onDownstreamWritten c a).flights = _ ∨ (s.onDownstreamWritten c a).flights = _
    rw [onDownstreamWritten,if_neg (by simp [hc]),relayUpstreamToDownstream]
    split
    · exact .inr rfl
    · exact .inl rfl

theorem flights_failed (s : Session) {op : Op} (hop : op ≠ .connect) {c : Completion}
    (hc : c.ok = false) (a : Answers) :
    ∃ g, Aborts g ∧ (s.handle op c a).flights = s.flights.map g := by
  rw [handle_failed s hop hc]
  exact flights_close _ a

section
variable {bufferSize : ℕ} {flights : List Flight} {τ : Traffic} {w : Way} {rest : Bytes}

theorem Piped.unique (h : Piped bufferSize flights τ w rest) {f : Flight} (hf : f ∈ flights)
    (hw : f.op.way = some w) : onWay flights w = [f] ∧ Carries w rest f := by
  have hin := mem_onWay.mpr ⟨hf,hw⟩
  rcases h.flights with hnone | ⟨x,hx,hcarries⟩
  · rw [hnone] at hin
    cases hin
  · rw [hx,List.mem_singleton] at hin
    exact ⟨hin ▸ hx,hin ▸ hcarries⟩

/-- What happens in the other direction does not matter. -/
theorem Piped.elsewhere (h : Piped bufferSize flights τ w rest) {flights' : List Flight}
    {τ' : Traffic} (hread : τ'.read w = τ.read w) (hwritten : τ'.written w = τ.written w)
    (hflights : onWay flights' w = onWay flights w) : Piped bufferSize flights' τ' w rest where
  order := by rw [hread,hwritten,h.order]
  bounded := h.bounded
  flights := hflights ▸ h.flights

theorem Piped.abort (h : Piped bufferSize flights τ w rest) {g : Flight → Flight} (hg : Aborts g) :
    Piped bufferSize (flights.map g) τ w rest := by
  refine ⟨h.order,h.bounded,?_⟩
  rw [onWay_map hg]
  rcases h.flights with hf | ⟨f,hf,hcarries⟩
  · exact .inl (by rw [hf]; rfl)
  · exact .inr ⟨g f,by rw [hf]; rfl,hcarries.abort hg⟩

theorem Piped.finishRead (h : Piped bufferSize flights τ w rest) (hf : ⟨w.read,none⟩ ∈ flights)
    {c : Completion} (hlen : c.data.length ≤ bufferSize) :
    Piped bufferSize (flights.erase ⟨w.read,none⟩ ++ [⟨w.read,some c⟩])
      (τ.hasRead w (if c.ok then c.data else [])) w (if c.ok then c.data else []) := by
  obtain ⟨hone,hcarries⟩ := h.unique hf (way_read w)
  have hrest := hcarries.of_reading
  refine ⟨?_,?_,.inr ⟨_,?_,.read c fun hok => by rw [if_pos hok]⟩⟩
  · rw [Traffic.hasRead]
    simp [h.order,hrest]
  · split
    · exact hlen
    · exact Nat.zero_le _
  · rw [onWay_append,onWay_erase,if_pos (way_read w),hone]
    simp [onWay]

theorem Piped.finishWrite (h : Piped bufferSize flights τ w rest) {data : Bytes}
    (hf : ⟨w.write data,none⟩ ∈ flights) (c : Completion) :
    Piped bufferSize (flights.erase ⟨w.write data,none⟩ ++ [⟨w.write data,some c⟩])
      (τ.hasWritten w (if c.ok then data else data.take c.written)) w
      (if c.ok then [] else data.drop c.written) := by
  obtain ⟨hone,hcarries⟩ := h.unique hf (way_write w data)
  obtain rfl := hcarries.of_writing
  refine ⟨?_,?_,.inr ⟨_,?_,.written rest c fun hok => by rw [if_pos hok]⟩⟩
  · rw [Traffic.hasWritten]
    cases c.ok <;> simp [h.order]
  · have hbounded := h.bounded
    split
    · exact Nat.zero_le _
    · rw [List.length_drop]
      omega
  · rw [onWay_append,onWay_erase,if_pos (way_write w rest),hone]
    simp [onWay]

theorem Piped.erase (h : Piped bufferSize flights τ w rest) {f : Flight} (hf : f ∈ flights) :
    Piped bufferSize (flights.erase f) τ w rest := by
  refine ⟨h.order,h.bounded,?_⟩
  rw [onWay_erase]
  split
  next hw =>
    rw [(h.unique hf hw).1]
    simp
  next => exact h.flights

theorem Piped.begin_ (h : Piped bufferSize flights τ w rest) (hnone : onWay flights w = [])
    {f : Flight} (hw : f.op.way = some w) (hcarries : Carries w rest f) :
    Piped bufferSize (flights ++ [f]) τ w rest := by
  refine ⟨h.order,h.bounded,.inr ⟨f,?_,hcarries⟩⟩
  rw [onWay_append,hnone]
  simp [onWay,hw]

theorem Piped.begin_elsewhere (h : Piped bufferSize flights τ w rest) {f : Flight}
    (hw : f.op.way ≠ some w) : Piped bufferSize (flights ++ [f]) τ w rest := by
  refine h.elsewhere rfl rfl ?_
  rw [onWay_append]
  simp [onWay,hw]

end

/-- Both directions, while no connect is in flight. -/
structure Piping (bufferSize : ℕ) (flights : List Flight) (τ : Traffic) : Prop where
  connected : ∀ f ∈ flights, f.op ≠ .connect
  piped : ∀ w, ∃ rest, Piped bufferSize flights τ w rest

section
variable {bufferSize : ℕ} {s : Session} {τ : Traffic}

theorem Piping.abort {flights : List Flight} (h : Piping bufferSize flights τ)
    {g : Flight → Flight} (hg : Aborts g) : Piping bufferSize (flights.map g) τ where
  connected f hf := by
    obtain ⟨f',hf',rfl⟩ := List.mem_map.mp hf
    rw [hg.op]
    exact h.connected f' hf'
  piped w := by
    obtain ⟨rest,hp⟩ := h.piped w
    exact ⟨rest,hp.abort hg⟩

theorem Piping.erase {flights : List Flight} (h : Piping bufferSize flights τ) {f : Flight}
    (hf : f ∈ flights) : Piping bufferSize (flights.erase f) τ where
  connected f' hf' := h.connected f' (List.mem_of_mem_erase hf')
  piped w := by
    obtain ⟨rest,hp⟩ := h.piped w
    exact ⟨rest,hp.erase hf⟩

/-- A direction without a flight may start the operation that carries its pending bytes. -/
theorem Piping.begin_ {flights : List Flight} (h : Piping bufferSize flights τ) {v : Way}
    (hnone : onWay flights v = []) {f : Flight} (hv : f.op.way = some v) {rest : Bytes}
    (hp : Piped bufferSize flights τ v rest) (hcarries : Carries v rest f) :
    Piping bufferSize (flights ++ [f]) τ where
  connected f' hf' := by
    rcases List.mem_append.mp hf' with hf' | hf'
    · exact h.connected f' hf'
    · obtain rfl := List.mem_singleton.mp hf'
      intro heq
      rw [heq] at hv
      cases hv
  piped w := by
    by_cases hw : w = v
    · subst hw
      exact ⟨rest,hp.begin_ hnone hv hcarries⟩
    · obtain ⟨rest',hp'⟩ := h.piped w
      exact ⟨rest',hp'.begin_elsewhere fun heq => hw (Option.some.inj (heq.symm.trans hv))⟩

/-- An operation comes to its end at the socket: its direction is one step on. -/
theorem Piping.finish (h : Piping bufferSize s.flights τ) {op : Op} {c : Completion}
    (hf : Flight.mk op none ∈ s.flights) (hlen : c.data.length ≤ bufferSize) :
    Piping bufferSize (s.finish op c).flights (τ.record (.finish op c)) where
  connected f hmem := by
    rcases List.mem_append.mp hmem with hmem | hmem
    · exact h.connected f (List.mem_of_mem_erase hmem)
    · obtain rfl := List.mem_singleton.mp hmem
      exact h.connected ⟨op,none⟩ hf
  piped w := by
    obtain ⟨rest,hp⟩ := h.piped w
    obtain ⟨v,hop⟩ := op_cases (h.connected _ hf)
    by_cases hv : w = v
    · subst hv
      rcases hop with rfl | ⟨data,rfl⟩
      · rw [record_read]
        exact ⟨_,hp.finishRead hf hlen⟩
      · rw [record_write]
        exact ⟨_,hp.finishWrite hf c⟩
    · have hway : op.way ≠ some w := by
        rcases hop with rfl | ⟨data,rfl⟩ <;> simpa using fun heq => hv heq.symm
      refine ⟨rest,hp.elsewhere (record_elsewhere hway).1 (record_elsewhere hway).2 ?_⟩
      change onWay (s.flights.erase ⟨op,none⟩ ++ [⟨op,some c⟩]) w = _
      rw [onWay_append,onWay_erase,if_neg hway]
      simp [onWay,hway]

/-- A completion is delivered: the direction goes on, it stops, or everything is aborted. -/
theorem Piping.deliver (h : Piping bufferSize s.flights τ) {op : Op} {c : Completion}
    (hf : Flight.mk op (some c) ∈ s.flights) (a : Answers) :
    Piping bufferSize (s.deliver op c a).flights τ := by
  have herased := h.erase hf
  set t : Session := { s with flights := s.flights.erase ⟨op,some c⟩ }
  change Piping bufferSize (t.handle op c a).flights τ
  cases hc : c.ok with
  | false =>
    obtain ⟨g,hg,heq⟩ := t.flights_failed (h.connected _ hf) hc a
    rw [heq]
    exact herased.abort hg
  | true =>
    obtain ⟨v,hop⟩ := op_cases (h.connected _ hf)
    obtain ⟨rest,hp⟩ := h.piped v
    rcases hop with rfl | ⟨data,rfl⟩
    · obtain ⟨hone,hcarries⟩ := hp.unique hf (way_read v)
      have hnone : onWay t.flights v = [] := by
        rw [onWay_erase,if_pos (way_read v),hone]
        simp
      rcases t.flights_read v hc a with heq | heq <;> rw [heq]
      · exact herased
      · obtain rfl := hcarries.of_read hc
        exact herased.begin_ hnone (way_write v _) (hp.erase hf) .writing
    · obtain ⟨hone,hcarries⟩ := hp.unique hf (way_write v data)
      have hnone : onWay t.flights v = [] := by
        rw [onWay_erase,if_pos (way_write v data),hone]
        simp
      rcases t.flights_written v data hc a with heq | heq <;> rw [heq]
      · exact herased
      · obtain rfl := hcarries.of_written hc
        exact herased.begin_ hnone (way_read v) (hp.erase hf) (.reading rfl)

end

/-- Nothing is relayed before the connection is there; from then on both directions are. -/
inductive Flowing (bufferSize : ℕ) : Session × Traffic → Prop
  | connecting {s : Session} (c : Option Completion) (h : s.flights = [⟨.connect,c⟩]) :
    Flowing bufferSize (s,{})
  | relaying {s : Session} {τ : Traffic} (h : Piping bufferSize s.flights τ) :
    Flowing bufferSize (s,τ)

/-- The answer to the connect starts both directions, or it ends the session. -/
theorem piping_onConnected (bufferSize : ℕ) {s : Session} (hs : s.flights = []) (c : Completion)
    (a : Answers) : Piping bufferSize (s.onConnected c a).flights {} := by
  have hidle : Piping bufferSize [] {} :=
    ⟨nofun,fun w => ⟨[],rfl,Nat.zero_le _,.inl rfl⟩⟩
  unfold onConnected
  split
  next socket _ _ =>
    have hflights : (({ s with upstream := some socket }.emit (.connected socket)).onUpstreamReady
        a).flights = s.flights ++ [⟨Way.downToUp.read,none⟩] ++ [⟨Way.upToDown.read,none⟩] := rfl
    rw [hflights,hs]
    have hdown := hidle.begin_ rfl (way_read .downToUp) (hidle.piped .downToUp).choose_spec
      (.reading (by simpa using (hidle.piped .downToUp).choose_spec.order))
    exact hdown.begin_ rfl (way_read .upToDown) (hdown.piped .upToDown).choose_spec
      (.reading (by simpa using (hdown.piped .upToDown).choose_spec.order))
  next =>
    obtain ⟨g,hg,heq⟩ := flights_close { s.emit .upstreamConnectError with upstreamHealthy := false } a
    rw [heq]
    change Piping bufferSize (s.flights.map g) {}
    rw [hs]
    exact hidle

theorem flowing_next {bufferSize : ℕ} {p p' : Session × Traffic} {e : Event}
    (h : Flowing bufferSize p) (hstep : (relaySystem bufferSize).step p e p') :
    Flowing bufferSize p' := by
  obtain ⟨s',τ'⟩ := p'
  obtain ⟨⟨hen,rfl⟩,rfl⟩ := hstep
  cases h with
  | @connecting s c hs =>
    cases e with
    | finish op c' =>
      obtain ⟨hf,-⟩ := hen
      rw [hs,List.mem_singleton] at hf
      injection hf with hop hc
      subst hop hc
      refine .connecting (some c') ?_
      change s.flights.erase _ ++ _ = _
      rw [hs]
      simp
    | deliver op c' a =>
      obtain ⟨hf,-⟩ := hen
      rw [hs,List.mem_singleton] at hf
      injection hf with hop hc
      subst hop hc
      refine .relaying (piping_onConnected bufferSize ?_ c' a)
      change s.flights.erase _ = _
      rw [hs]
      simp
  | relaying h =>
    cases e with
    | finish op c => exact .relaying (h.finish hen.1 hen.2)
    | deliver op c a => exact .relaying (h.deliver hen.1 a)

theorem flowing_of_reaches {bufferSize : ℕ} {p : Session × Traffic}
    (h : (relaySystem bufferSize).Reaches p) : Flowing bufferSize p := by
  refine h.invariant ?_ fun _ _ _ => flowing_next
  rintro ⟨_,_⟩ ⟨⟨endpoint,pooled,a,-,rfl⟩,rfl⟩
  cases pooled with
  | none => exact .connecting none rfl
  | some socket => exact .relaying (piping_onConnected bufferSize rfl _ a)

/-- In every order of completions each direction has written a prefix of what it has read, and
what is missing fits into one buffer: it is what the write under way carries, and nothing is
missing while a read is under way. At most one operation of a direction is in flight. -/
theorem relayed_in_order {bufferSize : ℕ} {s : Session} {τ : Traffic}
    (h : (relaySystem bufferSize).Reaches (s,τ)) (w : Way) :
    ∃ rest : Bytes, τ.read w = τ.written w ++ rest ∧ rest.length ≤ bufferSize ∧
      (Flight.mk w.read none ∈ s.flights → rest = []) ∧
      (∀ data, Flight.mk (w.write data) none ∈ s.flights → data = rest) ∧
      (onWay s.flights w).length ≤ 1 := by
  cases flowing_of_reaches h with
  | connecting c hs =>
    rw [hs]
    refine ⟨[],rfl,Nat.zero_le _,fun _ => rfl,fun data hd => ?_,Nat.zero_le _⟩
    cases w <;> simp [Way.write] at hd
  | relaying h =>
    obtain ⟨rest,hp⟩ := h.piped w
    refine ⟨rest,hp.order,hp.bounded,fun hf => ?_,fun data hf => ?_,?_⟩
    · exact (hp.unique hf (way_read w)).2.of_reading
    · exact (hp.unique hf (way_write w data)).2.of_writing.symm
    · rcases hp.flights with hf | ⟨f,hf,-⟩ <;> simp [hf]

theorem reaches_traffic {bufferSize : ℕ} {s : Session} {τ : Traffic}
    (h : (relaySystem bufferSize).Reaches (s,τ)) {es : List Event}
    (hf : Follows bufferSize (fun _ _ => True) s es) :
    (relaySystem bufferSize).Reaches (es.foldl next s,es.foldl Traffic.record τ) := by
  induction es generalizing s τ with
  | nil => exact h
  | cons e es ih =>
    have hstep : (relaySystem bufferSize).Reaches (s.next e,τ.record e) :=
      .step (e := e) h trivial ⟨⟨hf.1,rfl⟩,rfl⟩
    exact ih hstep hf.2.2

/-- The client sends two bytes, of which the upstream takes one before it fails. -/
def cutEvents : List Event :=
  [.finish .connect ⟨true,[],0,some 7⟩,.deliver .connect ⟨true,[],0,some 7⟩ twoBuffers,
    .finish .readDownstream ⟨true,ascii "xy",0,none⟩,
    .deliver .readDownstream ⟨true,ascii "xy",0,none⟩ twoBuffers,
    .finish (.writeUpstream (ascii "xy")) ⟨false,[],1,none⟩]

theorem relayed_in_order_cut :
    (cutEvents.foldl Traffic.record {}).written .downToUp = ascii "x" ∧
    ∃ rest : Bytes, (cutEvents.foldl Traffic.record {}).read .downToUp =
        (cutEvents.foldl Traffic.record {}).written .downToUp ++ rest ∧ rest.length ≤ 8 ∧
      (Flight.mk Way.downToUp.read none ∈ (cutEvents.foldl next (start 0 none twoBuffers)).flights →
        rest = []) ∧
      (∀ data, Flight.mk (Way.downToUp.write data) none ∈
        (cutEvents.foldl next (start 0 none twoBuffers)).flights → data = rest) ∧
      (onWay (cutEvents.foldl next (start 0 none twoBuffers)).flights .downToUp).length ≤ 1 :=
  ⟨by decide,relayed_in_order (reaches_traffic
    (.initial ⟨⟨0,none,twoBuffers,by decide,rfl⟩,rfl⟩) (by decide)) .downToUp⟩

end Session
end PerCoreShard
