import PerCoreShard.Library.History
import PerCoreShard.Upstream.UpstreamManager

/-! The protocol of sockets and calls, stated on what is on record: which effects may follow a
log, and what is true of every log that follows it. -/
namespace PerCoreShard
open Library

/-- The callback of the call runs. -/
def UpstreamEffect.callsBack (call : ℕ) : UpstreamEffect → Bool
  | .callback c _ _ _ => c == call
  | _ => false

/-- The socket is handed to a caller or put into a pool. -/
def UpstreamEffect.gives (socket : SocketId) : UpstreamEffect → Bool
  | .callback _ _ _ (some s) | .pool _ s => s == socket
  | _ => false

/-- The effect is about the place of the socket. -/
def UpstreamEffect.moves (socket : SocketId) : UpstreamEffect → Bool
  | .connect s _ _ | .connectDone s _ | .cancelConnect s | .release _ s | .pool _ s => s == socket
  | .callback _ _ _ (some s) | .close s | .discard s => s == socket
  | _ => false

/-- The endpoint that is chosen for a new request or a new connection. -/
def UpstreamEffect.chooses : UpstreamEffect → Option ℕ
  | .select index | .connect _ index _ => some index
  | _ => none

theorem Place.after_of_not_moves {socket : SocketId} {e : UpstreamEffect}
    (h : e.moves socket = false) (p : Place) : p.after socket e = p := by
  cases e with
  | callback call index err s =>
    cases s with
    | none => rfl
    | some s => simp_all [Place.after,UpstreamEffect.moves]
  | _ => simp_all [Place.after,UpstreamEffect.moves]

/-- The connect of the socket has failed or lost against its timer. -/
def Failed (log : List UpstreamEffect) (socket : SocketId) : Prop :=
  (∃ err, err.ok = false ∧ .connectDone socket err ∈ log) ∨ .cancelConnect socket ∈ log

/-- The socket was connected for the endpoint. -/
def ConnectedFor (log : List UpstreamEffect) (socket : SocketId) (index : ℕ) : Prop :=
  (∃ target, .connect socket index target ∈ log) ∧
    ∃ err, err.ok = true ∧ .connectDone socket err ∈ log

/-- What must be true when an effect is added to a log. -/
def Permits (log : List UpstreamEffect) : UpstreamEffect → Prop
  | .connect s _ _ => placeOf log s = .unborn
  | .connectDone s _ => (∃ index, placeOf log s = .connecting index) ∨ placeOf log s = .lost
  | .cancelConnect s => ∃ index, placeOf log s = .connecting index
  | .callback call index err socket =>
    (∀ e ∈ log, e.callsBack call = false) ∧
      match socket with
      | none => err.ok = false
      | some s => err.ok = true ∧ (placeOf log s = .connected index ∨
          (placeOf log s = .pooled index ∧ ∀ i, .acquire call i true ∉ log))
  | .release index s => ∃ call, placeOf log s = .held call index
  | .pool index s => placeOf log s = .released index
  | .close s => ∃ index, placeOf log s = .released index
  | .discard s => ∃ call index, placeOf log s = .held call index
  | _ => True

def Orderly (log : List UpstreamEffect) : Prop := AtEvery Permits log

/-- No caller and no pool has had the socket yet. -/
def Place.early : Place → Bool
  | .unborn | .connecting _ | .lost | .connected _ => true
  | _ => false

/-- The endpoint of a socket whose connect has succeeded in time. -/
def Place.endpoint : Place → Option ℕ
  | .connected index | .held _ index | .released index | .pooled index => some index
  | _ => none

theorem not_given_of_early {log : List UpstreamEffect} (h : Orderly log) {socket : SocketId}
    (he : (placeOf log socket).early = true) : ∀ e ∈ log, e.gives socket = false := by
  refine h.induct (P := fun log => (placeOf log socket).early = true →
    ∀ e ∈ log, e.gives socket = false) (fun _ _ he => by cases he) ?_ he
  intro log e _ ih hp he
  rw [placeOf_append] at he
  have hmain : (placeOf log socket).early = true → e.gives socket = false →
      ∀ x ∈ log ++ [e], x.gives socket = false := by
    intro hlog hgives x hx
    rcases List.mem_append.mp hx with hx | hx
    · exact ih hlog x hx
    · exact List.mem_singleton.mp hx ▸ hgives
  cases hm : e.moves socket with
  | false =>
    rw [Place.after_of_not_moves hm] at he
    refine hmain he ?_
    cases e with
    | callback call index err s => cases s <;> simp_all [UpstreamEffect.gives,UpstreamEffect.moves]
    | _ => simp_all [UpstreamEffect.gives,UpstreamEffect.moves]
  | true =>
    cases e with
    | connect s index target =>
      obtain rfl : s = socket := by simpa [UpstreamEffect.moves] using hm
      exact hmain (by rw [show placeOf log s = .unborn from hp]; rfl) rfl
    | connectDone s err =>
      obtain rfl : s = socket := by simpa [UpstreamEffect.moves] using hm
      rcases hp with ⟨index,hp⟩ | hp <;> exact hmain (by rw [hp]; rfl) rfl
    | cancelConnect s =>
      obtain rfl : s = socket := by simpa [UpstreamEffect.moves] using hm
      obtain ⟨index,hp⟩ := hp
      exact hmain (by rw [hp]; rfl) rfl
    | callback call index err s =>
      cases s with
      | none => cases hm
      | some s => simp_all [UpstreamEffect.moves,Place.after,Place.early]
    | _ => simp_all [UpstreamEffect.moves,Place.after,Place.early]

/-- A connect that is lost stays lost. -/
theorem lost_stays {log : List UpstreamEffect} {e : UpstreamEffect} (hp : Permits log e)
    {socket : SocketId} (h : placeOf log socket = .lost) :
    placeOf (log ++ [e]) socket = .lost := by
  rw [placeOf_append]
  cases hm : e.moves socket with
  | false => rw [Place.after_of_not_moves hm,h]
  | true =>
    cases e with
    | callback call index err s =>
      cases s with
      | none => cases hm
      | some s => simp_all [UpstreamEffect.moves,Permits]
    | _ => simp_all [UpstreamEffect.moves,Place.after,Permits]

theorem lost_of_failed {log : List UpstreamEffect} (h : Orderly log) {socket : SocketId}
    (hf : Failed log socket) : placeOf log socket = .lost := by
  refine h.induct (P := fun log => Failed log socket → placeOf log socket = .lost)
    (fun hf => by simp [Failed] at hf) ?_ hf
  intro log e _ ih hp hf
  rw [placeOf_append]
  have hcases : Failed log socket ∨ (∃ err, err.ok = false ∧ e = .connectDone socket err) ∨
      e = .cancelConnect socket := by
    rcases hf with ⟨err,herr,hin⟩ | hin
    · rcases List.mem_append.mp hin with hin | hin
      · exact .inl (.inl ⟨err,herr,hin⟩)
      · exact .inr (.inl ⟨err,herr,(List.mem_singleton.mp hin).symm⟩)
    · rcases List.mem_append.mp hin with hin | hin
      · exact .inl (.inr hin)
      · exact .inr (.inr (List.mem_singleton.mp hin).symm)
  rcases hcases with hf | ⟨err,herr,rfl⟩ | rfl
  · exact (placeOf_append _ _ _).symm.trans (lost_stays hp (ih hf))
  · rcases hp with ⟨index,hp⟩ | hp <;> simp [Place.after,hp,herr]
  · simp [Place.after]

theorem ConnectedFor.append {log : List UpstreamEffect} {socket : SocketId} {index : ℕ}
    (h : ConnectedFor log socket index) (more : List UpstreamEffect) :
    ConnectedFor (log ++ more) socket index := by
  obtain ⟨⟨target,hc⟩,err,hok,hd⟩ := h
  exact ⟨⟨target,List.mem_append_left _ hc⟩,err,hok,List.mem_append_left _ hd⟩

/-- A place tells what was done for the socket before it got there. -/
structure Explained (log : List UpstreamEffect) (socket : SocketId) : Prop where
  connecting : ∀ index, placeOf log socket = .connecting index →
    ∃ target, .connect socket index target ∈ log
  endpoint : ∀ index, (placeOf log socket).endpoint = some index → ConnectedFor log socket index

theorem explained {log : List UpstreamEffect} (h : Orderly log) (socket : SocketId) :
    Explained log socket := by
  refine h.induct (P := fun log => Explained log socket)
    ⟨(fun _ hn => by cases hn),(fun _ hn => by cases hn)⟩ ?_
  intro log e _ ih hp
  cases hm : e.moves socket with
  | false =>
    have hsame : placeOf (log ++ [e]) socket = placeOf log socket := by
      rw [placeOf_append,Place.after_of_not_moves hm]
    refine ⟨fun index hi => ?_,fun index hi => ?_⟩
    · obtain ⟨target,hin⟩ := ih.connecting index (hsame ▸ hi)
      exact ⟨target,List.mem_append_left _ hin⟩
    · exact (ih.endpoint index (hsame ▸ hi)).append _
  | true =>
    -- an effect that keeps the endpoint of a socket whose connect has succeeded
    have hkeeps : ∀ p index, placeOf log socket = p → p.endpoint = some index →
        (p.after socket e).endpoint = some index → Explained (log ++ [e]) socket := by
      rintro p index rfl hi hafter
      have hconnected := (ih.endpoint index hi).append [e]
      refine ⟨fun i hc => ?_,fun i hc => ?_⟩
      · rw [placeOf_append] at hc
        rw [hc] at hafter
        cases hafter
      · rw [placeOf_append,hafter] at hc
        exact Option.some.inj hc ▸ hconnected
    have hgone : (placeOf (log ++ [e]) socket).endpoint = none →
        (∀ index, placeOf (log ++ [e]) socket ≠ .connecting index) →
        Explained (log ++ [e]) socket := by
      intro hn hc
      refine ⟨fun i hi => absurd hi (hc i),fun i hi => ?_⟩
      rw [hn] at hi
      cases hi
    cases e with
    | connect s index target =>
      obtain rfl : s = socket := by simpa [UpstreamEffect.moves] using hm
      refine ⟨fun i hi => ?_,fun i hi => ?_⟩
      · obtain rfl : index = i := by simpa [Place.after] using hi
        exact ⟨target,by simp⟩
      · simp [Place.after,Place.endpoint] at hi
    | connectDone s err =>
      obtain rfl : s = socket := by simpa [UpstreamEffect.moves] using hm
      rcases hp with ⟨index,hp⟩ | hp
      · cases hok : err.ok with
        | false =>
          exact hgone (by simp [Place.after,hp,hok,Place.endpoint]) (by simp [Place.after,hp,hok])
        | true =>
          refine ⟨(fun i hi => by simp [Place.after,hp,hok] at hi),fun i hi => ?_⟩
          obtain rfl : index = i := by simpa [Place.after,hp,hok,Place.endpoint] using hi
          obtain ⟨target,hin⟩ := ih.connecting index hp
          exact ⟨⟨target,List.mem_append_left _ hin⟩,err,hok,by simp⟩
      · exact hgone (by simp [Place.after,hp,Place.endpoint]) (by simp [Place.after,hp])
    | cancelConnect s =>
      obtain rfl : s = socket := by simpa [UpstreamEffect.moves] using hm
      exact hgone (by simp [Place.after,Place.endpoint]) (by simp [Place.after])
    | callback call index err s =>
      cases s with
      | none => cases hm
      | some s =>
        obtain rfl : s = socket := by simpa [UpstreamEffect.moves] using hm
        rcases hp.2.2 with hp | ⟨hp,-⟩ <;>
          exact hkeeps _ index hp rfl (by simp [Place.after,Place.endpoint])
    | release index s =>
      obtain rfl : s = socket := by simpa [UpstreamEffect.moves] using hm
      obtain ⟨call,hp⟩ := hp
      exact hkeeps _ index hp rfl (by simp [Place.after,Place.endpoint])
    | pool index s =>
      obtain rfl : s = socket := by simpa [UpstreamEffect.moves] using hm
      exact hkeeps _ index hp rfl (by simp [Place.after,Place.endpoint])
    | close s =>
      obtain rfl : s = socket := by simpa [UpstreamEffect.moves] using hm
      exact hgone (by simp [Place.after,Place.endpoint]) (by simp [Place.after])
    | discard s =>
      obtain rfl : s = socket := by simpa [UpstreamEffect.moves] using hm
      exact hgone (by simp [Place.after,Place.endpoint]) (by simp [Place.after])
    | _ => cases hm

/-- No callback runs twice. -/
theorem callback_once {log : List UpstreamEffect} (h : Orderly log) (call : ℕ) :
    log.countP (UpstreamEffect.callsBack call) ≤ 1 := by
  refine h.induct (P := fun log => log.countP (UpstreamEffect.callsBack call) ≤ 1) (by simp) ?_
  intro log e _ ih hp
  rw [List.countP_append]
  cases hc : e.callsBack call with
  | false => simpa [List.countP_cons,hc] using ih
  | true =>
    cases e <;> try cases hc
    case callback c index err socket =>
      obtain rfl : c = call := by simpa [UpstreamEffect.callsBack] using hc
      have hnone : log.countP (UpstreamEffect.callsBack c) = 0 :=
        List.countP_eq_zero.mpr fun x hx => by simp [hp.1 x hx]
      simp [hnone,List.countP_cons]
      split <;> omega

end PerCoreShard
