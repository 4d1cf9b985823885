import PerCoreShard.Net.Http.Llhttp.Parser

/-! The two loops that `HttpSession` runs in both directions: handing what was read to a
parser, and draining the parser's body scratch with one piece of look-ahead. -/
namespace PerCoreShard

/-- `body_scratch_.size()`. -/
def bodyScratchSize : ℕ := 4096

section
variable {σ : Type} (feed : Bytes → σ → ℕ × σ) (filterHead drain stuck : σ → Bool × σ)

/-- `while (raw.size > 0)` of `process_downstream_chunk` and `process_upstream_chunk`. The
result is `false` when the function returns from inside the loop. Every turn consumes a
byte or leaves the loop, so the length of `raw` bounds the number of turns. -/
def relayLoop : ℕ → Bytes → σ → Bool × σ
  | 0,_,s => (true,s)
  | fuel+1,raw,s =>
    if raw.isEmpty then (true,s)
    else
      let fed := feed raw s
      let filtered := filterHead fed.2
      if filtered.1 = false then filtered
      else
        let drained := drain filtered.2
        if drained.1 = false then drained
        -- no progress: an error closes the session, otherwise `break`
        else if fed.1 = 0 then stuck drained.2
        else relayLoop fuel (raw.drop fed.1) drained.2

end

/-- `I` holds of a function's state if the caller goes on, `E` if it is to return. -/
def Outcome {σ : Type} (I E : σ → Prop) (r : Bool × σ) : Prop := if r.1 then I r.2 else E r.2

theorem Outcome.resume {σ : Type} {I E : σ → Prop} {r : Bool × σ} (h : Outcome I E r)
    (hr : ¬r.1 = false) : I r.2 := by
  rw [Outcome,if_pos (by simpa using hr)] at h
  exact h

theorem Outcome.ended {σ : Type} {I E : σ → Prop} {r : Bool × σ} (h : Outcome I E r)
    (hr : ¬r.1 = true) : E r.2 := by
  rw [Outcome,if_neg hr] at h
  exact h

theorem Outcome.returning {σ : Type} {I E : σ → Prop} {r : Bool × σ} (hr : ¬r.1 = true)
    (h : E r.2) : Outcome I E r := by
  rw [Outcome,if_neg hr]
  exact h

theorem Outcome.imp {σ : Type} {I E E' : σ → Prop} {r : Bool × σ} (h : Outcome I E r)
    (hE : ∀ {s}, E s → E' s) : Outcome I E' r := by
  unfold Outcome at h ⊢
  split
  next hr =>
    rw [if_pos hr] at h
    exact h
  next hr =>
    rw [if_neg hr] at h
    exact hE h

/-- In the states with `I` two functions do the same, and they keep `I` while they let their
caller go on. -/
def SameOn {σ : Type} (I : σ → Prop) (f f' : σ → Bool × σ) : Prop :=
  ∀ s, I s → f' s = f s ∧ ((f s).1 = true → I (f s).2)

theorem SameOn.outcome {σ : Type} {I : σ → Prop} {f f' : σ → Bool × σ} (h : SameOn I f f') {s : σ}
    (hs : I s) : Outcome I (fun _ => True) (f s) := by
  by_cases hgo : (f s).1 = true
  · rw [Outcome,if_pos hgo]
    exact (h s hs).2 hgo
  · exact .returning hgo trivial

/-- Two states in which a function comes to the same decision, with `I` for a caller that goes
on in both and `E` for one that is to return from both. -/
def Twin {σ : Type} (I E : σ → σ → Prop) (r r' : Bool × σ) : Prop :=
  r.1 = r'.1 ∧ if r.1 then I r.2 r'.2 else E r.2 r'.2

theorem Twin.resume {σ : Type} {I E : σ → σ → Prop} {r r' : Bool × σ} (h : Twin I E r r')
    (hr : ¬r.1 = false) : I r.2 r'.2 := by
  have hI := h.2
  rwa [if_pos (by simpa using hr)] at hI

theorem Twin.ended {σ : Type} {I E : σ → σ → Prop} {r r' : Bool × σ} (h : Twin I E r r')
    (hr : ¬r.1 = true) : E r.2 r'.2 := by
  have hE := h.2
  rwa [if_neg hr] at hE

theorem Twin.going {σ : Type} {I E : σ → σ → Prop} {s t : σ} (h : I s t) :
    Twin I E (true,s) (true,t) := ⟨rfl,h⟩

theorem Twin.returning {σ : Type} {I E : σ → σ → Prop} {s t : σ} (h : E s t) :
    Twin I E (false,s) (false,t) := ⟨rfl,h⟩

/-- A function that starts an operation when it makes its caller return, with `k` for what
happens if that operation completes at once. -/
def followedBy {σ : Type} (k : σ → σ) (r : Bool × σ) : Bool × σ := if r.1 then r else (r.1,k r.2)

section
variable {σ : Type} (readBody : σ → Bytes × σ) (process : Bytes → Bool → σ → Bool × σ)
  (messageDone : σ → Bool)

/-- `drain_request_body_into_serializer` and `drain_response_body_into_serializer`: a piece is
passed on only when the next one is known, so that the last one can carry `end_stream`. -/
def drainLoop : ℕ → Option Bytes → σ → σ
  | 0,_,s => s
  | fuel+1,pending,s =>
    let r := readBody s
    if r.1.isEmpty then
      match pending with
      | none => r.2
      | some chunk => (process chunk (messageDone r.2) r.2).2
    else
      match pending with
      | none => drainLoop fuel (some r.1) r.2
      | some chunk =>
        let p := process chunk false r.2
        if p.1 then drainLoop fuel (some r.1) p.2 else p.2

/-- What every turn of the drain loop does, the loop does. -/
theorem drainLoop_related {Q : σ → σ → Prop} (hrefl : ∀ s, Q s s)
    (htrans : ∀ s t u, Q s t → Q t u → Q s u) (hread : ∀ s, Q s (readBody s).2)
    (hprocess : ∀ chunk endStream s, Q s (process chunk endStream s).2) (fuel : ℕ)
    (pending : Option Bytes) (s : σ) : Q s (drainLoop readBody process messageDone fuel pending s) := by
  induction fuel generalizing pending s with
  | zero => exact hrefl s
  | succ fuel ih =>
    unfold drainLoop
    dsimp only
    split
    · cases pending with
      | none => exact hread s
      | some chunk => exact htrans _ _ _ (hread s) (hprocess _ _ _)
    · cases pending with
      | none => exact htrans _ _ _ (hread s) (ih _ _)
      | some chunk =>
        have h := htrans _ _ _ (hread s) (hprocess chunk false _)
        dsimp only
        split
        · exact htrans _ _ _ h (ih _ _)
        · exact h

/-- What processing keeps while it goes on, and what a rejection brings about. -/
theorem drainLoop_outcome {I E : σ → Prop} (hread : ∀ s, I s → I (readBody s).2)
    (hprocess : ∀ chunk endStream s, I s → Outcome I E (process chunk endStream s)) (fuel : ℕ)
    (pending : Option Bytes) (s : σ) (hI : I s) :
    I (drainLoop readBody process messageDone fuel pending s) ∨
      E (drainLoop readBody process messageDone fuel pending s) := by
  induction fuel generalizing pending s with
  | zero => exact .inl hI
  | succ fuel ih =>
    unfold drainLoop
    dsimp only
    have hr := hread s hI
    cases pending with
    | none =>
      split
      · exact .inl hr
      · exact ih _ _ hr
    | some chunk =>
      split
      · have hp := hprocess chunk (messageDone (readBody s).2) _ hr
        by_cases hgo : (process chunk (messageDone (readBody s).2) (readBody s).2).1 = true
        · exact .inl (hp.resume (by simp [hgo]))
        · exact .inr (hp.ended hgo)
      · have hp := hprocess chunk false _ hr
        dsimp only
        split
        next hgo => exact ih _ _ (hp.resume (by simp [hgo]))
        next hgo => exact .inr (hp.ended hgo)

/-- Two drains that read the same pieces and process them alike stay alike. -/
theorem drainLoop_twin {I E : σ → σ → Prop}
    (hread : ∀ s t, I s t → (readBody s).1 = (readBody t).1 ∧ I (readBody s).2 (readBody t).2)
    (hdone : ∀ s t, I s t → messageDone s = messageDone t)
    (hprocess : ∀ chunk endStream s t, I s t →
      Twin I E (process chunk endStream s) (process chunk endStream t)) (fuel : ℕ)
    (pending : Option Bytes) (s t : σ) (hI : I s t) :
    I (drainLoop readBody process messageDone fuel pending s)
        (drainLoop readBody process messageDone fuel pending t) ∨
      E (drainLoop readBody process messageDone fuel pending s)
        (drainLoop readBody process messageDone fuel pending t) := by
  induction fuel generalizing pending s t with
  | zero => exact .inl hI
  | succ fuel ih =>
    obtain ⟨hpiece,hr⟩ := hread s t hI
    unfold drainLoop
    dsimp only
    rw [← hpiece,← hdone _ _ hr]
    cases pending with
    | none =>
      split
      · exact .inl hr
      · exact ih _ _ _ hr
    | some chunk =>
      split
      · have hp := hprocess chunk (messageDone (readBody s).2) _ _ hr
        by_cases hgo : (process chunk (messageDone (readBody s).2) (readBody s).2).1 = true
        · exact .inl (hp.resume (by simp [hgo]))
        · exact .inr (hp.ended hgo)
      · have hp := hprocess chunk false _ _ hr
        dsimp only
        rw [← hp.1]
        split
        next hgo => exact ih _ _ _ (hp.resume (by simp [hgo]))
        next hgo => exact .inr (hp.ended hgo)

/-- Processing whose rejections are followed up by `k` before control returns: the loop is
followed up by `k` when it was left by a rejection. -/
theorem drainLoop_followedBy {I : σ → Prop} (k : σ → σ) (rejected : σ → Bool)
    (hI : ∀ s, I s → rejected s = false) (hread : ∀ s, I s → I (readBody s).2)
    (hprocess : ∀ chunk endStream s, I s →
      Outcome I (fun t => rejected t = true) (process chunk endStream s)) (fuel : ℕ)
    (pending : Option Bytes) (s : σ) (hs : I s) :
    drainLoop readBody (fun chunk endStream s => followedBy k (process chunk endStream s))
        messageDone fuel pending s =
      if rejected (drainLoop readBody process messageDone fuel pending s) then
        k (drainLoop readBody process messageDone fuel pending s)
      else drainLoop readBody process messageDone fuel pending s := by
  have hstop : ∀ chunk endStream s, I s → (followedBy k (process chunk endStream s)).2 =
      if rejected (process chunk endStream s).2 then k (process chunk endStream s).2
      else (process chunk endStream s).2 := by
    intro chunk endStream s hs
    have hp := hprocess chunk endStream s hs
    by_cases hgo : (process chunk endStream s).1 = true
    · rw [hI _ (hp.resume (by simp [hgo]))]
      simp [followedBy,hgo]
    · rw [hp.ended hgo]
      simp [followedBy,hgo]
  induction fuel generalizing pending s with
  | zero => simp [drainLoop,hI s hs]
  | succ fuel ih =>
    have hr := hread s hs
    unfold drainLoop
    dsimp only
    cases pending with
    | none =>
      split
      · simp [hI _ hr]
      · exact ih _ _ hr
    | some chunk =>
      split
      · exact hstop _ _ _ hr
      · have hp := hprocess chunk false _ hr
        by_cases hgo : (process chunk false (readBody s).2).1 = true
        · simp only [followedBy,hgo,if_true]
          exact ih _ _ (hp.resume (by simp [hgo]))
        · simpa only [followedBy,hgo,if_false,Bool.false_eq_true] using hstop chunk false _ hr

/-- Processing is exchanged for other processing that does the same in the states that occur. -/
theorem drainLoop_congr {I : σ → Prop} {process' : Bytes → Bool → σ → Bool × σ}
    (hread : ∀ s, I s → I (readBody s).2)
    (hprocess : ∀ chunk endStream, SameOn I (process chunk endStream) (process' chunk endStream))
    (fuel : ℕ) (pending : Option Bytes) (s : σ) (hI : I s) :
    drainLoop readBody process' messageDone fuel pending s =
      drainLoop readBody process messageDone fuel pending s := by
  induction fuel generalizing pending s with
  | zero => rfl
  | succ fuel ih =>
    have hr := hread s hI
    unfold drainLoop
    dsimp only
    cases pending with
    | none =>
      split
      · rfl
      · exact ih _ _ hr
    | some chunk =>
      split
      · exact congrArg Prod.snd (hprocess chunk _ _ hr).1
      · obtain ⟨hsame,hkeep⟩ := hprocess chunk false _ hr
        dsimp only
        rw [hsame]
        split
        next hgo => exact ih _ _ (hkeep hgo)
        next => rfl

/-- The rule for the drain loop. `I held` holds while the bytes `held` are out of the scratch
and not yet processed, `N` until the end of the stream was passed on, and `J` after a
rejection. -/
theorem drainLoop_rule (scratch : σ → Bytes) (size : ℕ)
    {I : Bytes → σ → Prop} {N J : σ → Prop} (hsize : 0 < size)
    (hpiece : ∀ s, (readBody s).1 = (scratch s).take size)
    (hread : ∀ held s, I held s → N s → I (held ++ (readBody s).1) (readBody s).2 ∧
      N (readBody s).2 ∧ scratch (readBody s).2 = (scratch s).drop size)
    (hprocess : ∀ chunk more s endStream, chunk ≠ [] ∧ chunk.length ≤ size →
      I (chunk ++ more) s → N s →
      endStream = ((more ++ scratch s).isEmpty && messageDone s) →
      if (process chunk endStream s).1 then
        I more (process chunk endStream s).2 ∧
          scratch (process chunk endStream s).2 = scratch s ∧
          (endStream = false → N (process chunk endStream s).2)
      else J (process chunk endStream s).2) :
    ∀ fuel pending s, (scratch s).length < fuel → I (pending.getD []) s → N s →
      (∀ chunk, pending = some chunk → chunk ≠ [] ∧ chunk.length ≤ size) →
      (I [] (drainLoop readBody process messageDone fuel pending s) ∧
        scratch (drainLoop readBody process messageDone fuel pending s) = []) ∨
      J (drainLoop readBody process messageDone fuel pending s) := by
  intro fuel
  induction fuel with
  | zero => intro pending s h; omega
  | succ fuel ih =>
    intro pending s hfuel hI hN hne
    obtain ⟨hI',hN',hscratch⟩ := hread _ s hI hN
    have hlen : (readBody s).1.length ≤ size := by
      rw [hpiece]
      exact List.length_take_le _ _
    by_cases hr : (readBody s).1 = []
    · -- nothing is left to be read
      have hempty : scratch s = [] := by
        rw [hpiece,List.take_eq_nil_iff] at hr
        exact hr.resolve_left (by omega)
      have hempty' : scratch (readBody s).2 = [] := by rw [hscratch,hempty,List.drop_nil]
      rw [hr,List.append_nil] at hI'
      cases pending with
      | none =>
        have : drainLoop readBody process messageDone (fuel + 1) none s = (readBody s).2 := by
          simp [drainLoop,hr]
        rw [this]
        exact .inl ⟨hI',hempty'⟩
      | some chunk =>
        have : drainLoop readBody process messageDone (fuel + 1) (some chunk) s =
            (process chunk (messageDone (readBody s).2) (readBody s).2).2 := by
          simp [drainLoop,hr]
        rw [this]
        have h := hprocess chunk [] (readBody s).2 (messageDone (readBody s).2) (hne chunk rfl)
          (by simpa using hI') hN' (by simp [hempty'])
        split at h
        · exact .inl ⟨h.1,h.2.1.trans hempty'⟩
        · exact .inr h
    · have hlt : (scratch (readBody s).2).length < (scratch s).length := by
        have hpos : 0 < (scratch s).length := by
          rw [hpiece] at hr
          exact List.length_pos_iff.mpr fun h => hr (by simp [h])
        rw [hscratch,List.length_drop]
        omega
      cases pending with
      | none =>
        have : drainLoop readBody process messageDone (fuel + 1) none s =
            drainLoop readBody process messageDone fuel (some (readBody s).1) (readBody s).2 := by
          simp [drainLoop,hr]
        rw [this]
        exact ih _ _ (by omega) (by simpa using hI') hN' (by rintro chunk ⟨rfl⟩; exact ⟨hr,hlen⟩)
      | some chunk =>
        have hend : false = (((readBody s).1 ++ scratch (readBody s).2).isEmpty &&
            messageDone (readBody s).2) := by
          simp [hr]
        have h := hprocess chunk (readBody s).1 (readBody s).2 false (hne chunk rfl) hI' hN' hend
        split at h
        next hp =>
          have : drainLoop readBody process messageDone (fuel + 1) (some chunk) s =
              drainLoop readBody process messageDone fuel (some (readBody s).1)
                (process chunk false (readBody s).2).2 := by
            simp [drainLoop,hr,hp]
          rw [this]
          refine ih _ _ ?_ h.1 (h.2.2 rfl) (by rintro chunk ⟨rfl⟩; exact ⟨hr,hlen⟩)
          rw [h.2.1]
          omega
        next hp =>
          have : drainLoop readBody process messageDone (fuel + 1) (some chunk) s =
              (process chunk false (readBody s).2).2 := by
            simp [drainLoop,hr,hp]
          exact .inr (this ▸ h)

end

section
variable {σ : Type} {feed : Bytes → σ → ℕ × σ} {filterHead drain stuck : σ → Bool × σ}

/-- What every part of a turn of the relay loop does, the loop does. -/
theorem relayLoop_related {Q : σ → σ → Prop} (hrefl : ∀ s, Q s s)
    (htrans : ∀ s t u, Q s t → Q t u → Q s u) (hfeed : ∀ raw s, Q s (feed raw s).2)
    (hfilter : ∀ s, Q s (filterHead s).2) (hdrain : ∀ s, Q s (drain s).2)
    (hstuck : ∀ s, Q s (stuck s).2) (fuel : ℕ) (raw : Bytes) (s : σ) :
    Q s (relayLoop feed filterHead drain stuck fuel raw s).2 := by
  induction fuel generalizing raw s with
  | zero => exact hrefl s
  | succ fuel ih =>
    unfold relayLoop
    dsimp only
    have h := htrans _ _ _ (hfeed raw s) (hfilter _)
    split
    · exact hrefl s
    · split
      · exact h
      · have hd := htrans _ _ _ h (hdrain _)
        split
        · exact hd
        · split
          · exact htrans _ _ _ hd (hstuck _)
          · exact htrans _ _ _ hd (ih _ _)

/-- What every part of a turn keeps while it lets the loop go on, and what it brings about when
it makes the function return, the loop keeps and brings about. -/
theorem relayLoop_outcome {I E : σ → Prop} (hfeed : ∀ raw s, I s → I (feed raw s).2)
    (hfilter : ∀ s, I s → Outcome I E (filterHead s)) (hdrain : ∀ s, I s → Outcome I E (drain s))
    (hstuck : ∀ s, I s → Outcome I E (stuck s)) (fuel : ℕ) (raw : Bytes) (s : σ) (hI : I s) :
    Outcome I E (relayLoop feed filterHead drain stuck fuel raw s) := by
  induction fuel generalizing raw s with
  | zero => exact hI
  | succ fuel ih =>
    have hfiltered := hfilter _ (hfeed raw s hI)
    unfold relayLoop
    dsimp only
    split
    · exact hI
    · split
      · exact hfiltered
      next hf =>
        have hdrained := hdrain _ (hfiltered.resume hf)
        split
        · exact hdrained
        next hd =>
          split
          · exact hstuck _ (hdrained.resume hd)
          · exact ih _ _ (hdrained.resume hd)

/-- Two relay loops whose parts come to the same decisions come to the same decision. -/
theorem relayLoop_twin {I E : σ → σ → Prop}
    (hfeed : ∀ raw s t, I s t → (feed raw s).1 = (feed raw t).1 ∧ I (feed raw s).2 (feed raw t).2)
    (hfilter : ∀ s t, I s t → Twin I E (filterHead s) (filterHead t))
    (hdrain : ∀ s t, I s t → Twin I E (drain s) (drain t))
    (hstuck : ∀ s t, I s t → Twin I E (stuck s) (stuck t)) (fuel : ℕ) (raw : Bytes) (s t : σ)
    (hI : I s t) : Twin I E (relayLoop feed filterHead drain stuck fuel raw s)
      (relayLoop feed filterHead drain stuck fuel raw t) := by
  induction fuel generalizing raw s t with
  | zero => exact .going hI
  | succ fuel ih =>
    obtain ⟨hconsumed,hfed⟩ := hfeed raw s t hI
    have hfiltered := hfilter _ _ hfed
    unfold relayLoop
    dsimp only
    rw [← hconsumed,← hfiltered.1]
    split
    · exact .going hI
    · split
      · exact hfiltered
      next hf =>
        have hdrained := hdrain _ _ (hfiltered.resume hf)
        rw [← hdrained.1]
        split
        · exact hdrained
        next hd =>
          split
          · exact hstuck _ _ (hdrained.resume hd)
          · exact ih _ _ _ (hdrained.resume hd)

/-- The parts of a turn are exchanged for others that do the same in the states that occur. -/
theorem relayLoop_congr {I : σ → Prop} {filterHead' drain' : σ → Bool × σ}
    (hfeed : ∀ raw s, I s → I (feed raw s).2) (hfilter : SameOn I filterHead filterHead')
    (hdrain : SameOn I drain drain') (fuel : ℕ) (raw : Bytes) (s : σ) (hI : I s) :
    relayLoop feed filterHead' drain' stuck fuel raw s =
      relayLoop feed filterHead drain stuck fuel raw s := by
  induction fuel generalizing raw s with
  | zero => rfl
  | succ fuel ih =>
    obtain ⟨hfiltered,hkeep⟩ := hfilter _ (hfeed raw s hI)
    unfold relayLoop
    dsimp only
    rw [hfiltered]
    split
    · rfl
    · split
      · rfl
      next hf =>
        obtain ⟨hdrained,hkeep'⟩ := hdrain _ (hkeep (by simpa using hf))
        rw [hdrained]
        split
        · rfl
        next hd =>
          split
          · rfl
          · exact ih _ _ (hkeep' (by simpa using hd))

/-- The relay loop is followed up by `k` when a part of a turn that is made it return. -/
theorem relayLoop_followedBy {I : σ → Prop} {k : σ → σ} {filterHead' drain' : σ → Bool × σ}
    (hfeed : ∀ raw s, I s → I (feed raw s).2)
    (hfilter : ∀ s, I s → Outcome I (fun _ => True) (filterHead s))
    (hdrain : ∀ s, I s → Outcome I (fun _ => True) (drain s))
    (hfilter' : ∀ s, I s → filterHead' s = followedBy k (filterHead s))
    (hdrain' : ∀ s, I s → drain' s = followedBy k (drain s))
    (hstuck : ∀ s, I s → followedBy k (stuck s) = stuck s) (fuel : ℕ) (raw : Bytes) (s : σ)
    (hI : I s) : relayLoop feed filterHead' drain' stuck fuel raw s =
      followedBy k (relayLoop feed filterHead drain stuck fuel raw s) := by
  induction fuel generalizing raw s with
  | zero => rfl
  | succ fuel ih =>
    have hfed := hfeed raw s hI
    have hfiltered := hfilter _ hfed
    unfold relayLoop
    dsimp only
    rw [hfilter' _ hfed]
    by_cases hr : raw.isEmpty
    · simp [hr,followedBy]
    · cases hf : (filterHead (feed raw s).2).1 with
      | false => simp [hr,hf,followedBy]
      | true =>
        have hI' := hfiltered.resume (by simp [hf])
        have hdrained := hdrain _ hI'
        have hpass : followedBy k (filterHead (feed raw s).2) = filterHead (feed raw s).2 := by
          simp [followedBy,hf]
        simp only [hpass,hf,hr,Bool.false_eq_true,Bool.true_eq_false,if_false,hdrain' _ hI']
        cases hd : (drain (filterHead (feed raw s).2).2).1 with
        | false => simp [hd,followedBy]
        | true =>
          have hI'' := hdrained.resume (by simp [hd])
          have hpass' : followedBy k (drain (filterHead (feed raw s).2).2) =
              drain (filterHead (feed raw s).2).2 := by
            simp [followedBy,hd]
          simp only [hpass',hd,Bool.true_eq_false,if_false]
          by_cases hz : (feed raw s).1 = 0
          · simp only [hz,if_true]
            exact (hstuck _ hI'').symm
          · simp only [hz,if_false]
            exact ih _ _ hI''

/-- A read that is consumed at once takes one turn. -/
theorem relayLoop_consumed {raw : Bytes} {s : σ} (hraw : raw ≠ [])
    (h : (feed raw s).1 = raw.length) :
    relayLoop feed filterHead drain stuck (raw.length + 1) raw s =
      if (filterHead (feed raw s).2).1 then drain (filterHead (feed raw s).2).2
      else filterHead (feed raw s).2 := by
  obtain ⟨n,hn⟩ : ∃ n, raw.length = n + 1 := Nat.exists_eq_succ_of_ne_zero (by simpa using hraw)
  rw [hn]
  simp only [relayLoop,List.isEmpty_iff,hraw,if_false,h]
  cases hf : (filterHead (feed raw s).2).1 with
  | false => simp
  | true =>
    cases hd : (drain (filterHead (feed raw s).2).2).1 with
    | false => simp
    | true =>
      have hne : raw.length ≠ 0 := by omega
      simp only [Bool.true_eq_false,if_false,hne,List.drop_length,if_true]
      exact Prod.ext hd.symm rfl

/-- A read whose rest cannot be consumed takes one more turn, which changes nothing before
it finds out. -/
theorem relayLoop_stuck {raw : Bytes} {s : σ} (h : (feed raw s).1 < raw.length)
    (hagain : ∀ rest, (filterHead (feed raw s).2).1 = true →
      (drain (filterHead (feed raw s).2).2).1 = true →
      let d := (drain (filterHead (feed raw s).2).2).2
      feed rest d = (0,d) ∧ filterHead d = (true,d) ∧ drain d = (true,d)) :
    relayLoop feed filterHead drain stuck (raw.length + 1) raw s =
      if (filterHead (feed raw s).2).1 then
        if (drain (filterHead (feed raw s).2).2).1 then
          stuck (drain (filterHead (feed raw s).2).2).2
        else drain (filterHead (feed raw s).2).2
      else filterHead (feed raw s).2 := by
  obtain ⟨n,hn⟩ : ∃ n, raw.length = n + 1 := Nat.exists_eq_succ_of_ne_zero (by omega)
  have hraw : raw ≠ [] := by rintro rfl; simp at hn
  rw [hn]
  rw [relayLoop]
  simp only [List.isEmpty_iff,hraw,if_false]
  cases hf : (filterHead (feed raw s).2).1 with
  | false => simp
  | true =>
    cases hd : (drain (filterHead (feed raw s).2).2).1 with
    | false => simp
    | true =>
      simp only [Bool.true_eq_false,if_false,if_true]
      by_cases hz : (feed raw s).1 = 0
      · rw [if_pos hz]
      · obtain ⟨ha,hb,hc⟩ := hagain (raw.drop (feed raw s).1) hf hd
        have hrest : raw.drop (feed raw s).1 ≠ [] := by
          simp only [ne_eq,List.drop_eq_nil_iff]
          omega
        rw [if_neg hz,relayLoop]
        simp only [List.isEmpty_iff,hrest,if_false,ha,hb,hc,Bool.true_eq_false,if_true]

end
end PerCoreShard
