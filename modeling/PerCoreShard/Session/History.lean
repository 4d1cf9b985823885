import PerCoreShard.Session.Callback

/-! The logs are a faithful record of the completions: a callback adds the entry for the read
or write that completed, and everything else it adds is something the session does. -/
namespace PerCoreShard
open Library

namespace HttpSession
variable {G : Gateway}

/-- `R` holds of every entry of every cycle, together with the entries before it. -/
def Each (R : List Effect → Effect → Prop) (s : HttpSession G) : Prop :=
  ∀ log ∈ s.cycles, AtEvery R log

/-- From `s` to `t` nothing was added to the logs but what the session did of its own, so
every property of the recorded completions is kept. -/
def Quiet (s t : HttpSession G) : Prop :=
  ∀ R : List Effect → Effect → Prop, (∀ past e, e.isInput = false → R past e) → Each R s → Each R t

theorem Quiet.same {s t : HttpSession G} (h : t.cycles = s.cycles) : Quiet s t :=
  fun _ _ hs log hlog => hs log (h ▸ hlog)

theorem Quiet.refl (s : HttpSession G) : Quiet s s := .same rfl

theorem Quiet.trans {s t u : HttpSession G} (h : Quiet s t) (h' : Quiet t u) : Quiet s u :=
  fun R hR hs => h' R hR (h R hR hs)

theorem Each.extend {R : List Effect → Effect → Prop} {s t : HttpSession G} {es : List Effect}
    (h : Each R s) (hpast : t.past = s.past) (hlog : t.log = s.log ++ es) (hes : Along R s.log es) :
    Each R t := by
  intro log hmem
  rcases List.mem_append.mp hmem with hp | hp
  · exact h log (List.mem_append_left _ (hpast ▸ hp))
  · rw [List.mem_singleton.mp hp,hlog]
    exact (atEvery_append R _ _).mpr ⟨h s.log (by simp [cycles]),hes⟩

theorem Each.emit {R : List Effect → Effect → Prop} {s : HttpSession G} {e : Effect} (h : Each R s)
    (he : R s.log e) : Each R (s.emit e) :=
  h.extend rfl rfl ⟨he,trivial⟩

theorem Quiet.emit {s t : HttpSession G} (h : Quiet s t) {e : Effect} (he : e.isInput = false) :
    Quiet s (t.emit e) :=
  fun R hR hs => (h R hR hs).emit (hR _ e he)

theorem Quiet.extend {s t : HttpSession G} {es : List Effect} (hes : ∀ e ∈ es, e.isInput = false)
    (hpast : t.past = s.past) (hlog : t.log = s.log ++ es) : Quiet s t :=
  fun _ hR hs => hs.extend hpast hlog
    (along_of_forall (fun e he past => hR past e (hes e he)) s.log)

/-- Nothing a session does of its own is recorded as a completion. -/
theorem Acts.quiet {s t : HttpSession G} (h : Acts s t) : Quiet s t := by
  induction h with
  | frame h => exact .same (by simp [cycles,h.log,h.past])
  | note hi => exact (Quiet.refl _).emit hi
  | @takeUpstream s _ socket pooled =>
    rw [takeUpstream_spec,List.append_assoc]
    refine .extend ?_ rfl rfl
    cases s.upstream <;> simp [Effect.isInput]
  | @discardUpstream s =>
    rw [discardUpstream_spec]
    exact .extend (by simp [Effect.isInput]) rfl rfl
  | releaseUpstream s =>
    obtain heq | ⟨socket,-,heq⟩ := s.releaseUpstream_cases
    · exact .same (by rw [heq])
    · rw [heq]
      exact .extend (by simp [Effect.isInput]) rfl rfl
  | close s =>
    cases hc : s.closing with
    | true => exact .same (by rw [close_of_closing hc])
    | false =>
      rw [close_eq hc]
      exact .extend s.isInput_closingEffects rfl rfl
  | @reset s =>
    have h : Quiet s (s.emit .resetForNextRequest) := (Quiet.refl s).emit rfl
    have hread : ∀ u : HttpSession G, Quiet u u.readRequestChunk :=
      fun u => .extend (by simp [Effect.isInput] : ∀ e ∈ [Effect.readDownstream], e.isInput = false)
        rfl rfl
    refine (h.trans fun R hR hs log hlog => ?_).trans (hread _)
    rcases List.mem_append.mp hlog with hp | hp
    · exact hs log hp
    · rw [List.mem_singleton.mp hp]
      trivial
  | trans _ _ ih ih' => exact ih.trans ih'

/-- A callback keeps a property of the recorded completions if the record of its own
completion has it. -/
theorem Each.deliver {R : List Effect → Effect → Prop} {s : HttpSession G} {e : Event G}
    (hR : ∀ past x, x.isInput = false → R past x) (hs : Suspended s) (he : e.op ∈ s.pending)
    (hlen : e.completion.data.length ≤ G.bufferSize) (hI : Each R s)
    (hnew : ∀ x ∈ inputEntry e.op e.completion, R s.log x) : Each R (s.deliver e) := by
  refine (acts_deliver hs he hlen).quiet R hR ?_
  have hone : inputEntry e.op e.completion = [] ∨ ∃ x, inputEntry e.op e.completion = [x] := by
    cases e.op <;> simp [inputEntry]
  rcases hone with hn | ⟨x,hx⟩
  · simpa only [heard,hn,List.append_nil] using hI
  · simp only [heard,hx]
    exact hI.emit (hnew x (by simp [hx]))

/-- What is true of the record of every completion a run delivers is true of every record in
its logs. -/
theorem each_of_reaches {allowed : HttpSession G → Event G → Prop}
    {R : List Effect → Effect → Prop} (hR : ∀ past x, x.isInput = false → R past x)
    (hnew : ∀ s e, Suspended s → e.op ∈ s.pending → allowed s e →
      ∀ x ∈ inputEntry e.op e.completion, R s.log x) {s : HttpSession G}
    (h : (system G).ReachesWhen allowed s) : Each R s := by
  refine h.invariant_with (I := Each R) (fun s hs => suspended_of_reaches hs.reaches) ?_ ?_
  · rintro _ ⟨ctx,readBuf,writeBuf,-,-,rfl⟩ log hlog
    have : log = [.onAccept,.acquireBuffer readBuf.id,.acquireBuffer writeBuf.id,
      .readDownstream] := by simpa [cycles,start,readRequestChunk,emit,await] using hlog
    rw [this]
    exact ⟨hR _ _ rfl,hR _ _ rfl,hR _ _ rfl,hR _ _ rfl,trivial⟩
  · rintro s e _ hs hI hallowed ⟨he,hlen,rfl⟩
    exact Each.deliver hR hs he hlen hI (hnew s e hs he hallowed)

end HttpSession
end PerCoreShard
