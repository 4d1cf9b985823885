import Mathlib.Logic.Relation

/-! Labelled transition systems, the states their runs reach, and the rule that carries an
invariant from single steps to runs. A run may be restricted to steps that satisfy a side
condition; an unrestricted run is the special case without one. -/
namespace PerCoreShard.Library

structure System (σ ε : Type) where
  initial : σ → Prop
  step : σ → ε → σ → Prop

namespace System
variable {σ ε : Type} (S : System σ ε)

/-- The states reached by runs all of whose steps satisfy `allowed`. -/
inductive ReachesWhen (allowed : σ → ε → Prop) : σ → Prop
  | initial {s} (h : S.initial s) : ReachesWhen allowed s
  | step {s e s'} (before : ReachesWhen allowed s) (ok : allowed s e) (h : S.step s e s') :
      ReachesWhen allowed s'

/-- The states reached by arbitrary runs. -/
def Reaches : σ → Prop := S.ReachesWhen fun _ _ => True

variable {S} {allowed : σ → ε → Prop}

/-- Induction over a restricted run. -/
theorem ReachesWhen.invariant {I : σ → Prop} (hinit : ∀ s, S.initial s → I s)
    (hstep : ∀ s e s', I s → allowed s e → S.step s e s' → I s') {s : σ}
    (h : S.ReachesWhen allowed s) : I s := by
  induction h with
  | initial h => exact hinit _ h
  | step _ ok h ih => exact hstep _ _ _ ih ok h

/-- An invariant already proved of the run may be used at every one of its states. -/
theorem ReachesWhen.invariant_with {I J : σ → Prop} (hJ : ∀ s, S.ReachesWhen allowed s → J s)
    (hinit : ∀ s, S.initial s → I s)
    (hstep : ∀ s e s', J s → I s → allowed s e → S.step s e s' → I s') {s : σ}
    (h : S.ReachesWhen allowed s) : I s := by
  induction h with
  | initial h => exact hinit _ h
  | step before ok h ih => exact hstep _ _ _ (hJ _ before) ih ok h

theorem ReachesWhen.mono {allowed' : σ → ε → Prop} (hle : ∀ s e, allowed s e → allowed' s e)
    {s : σ} (h : S.ReachesWhen allowed s) : S.ReachesWhen allowed' s := by
  induction h with
  | initial h => exact .initial h
  | step _ ok h ih => exact .step ih (hle _ _ ok) h

theorem ReachesWhen.reaches {s : σ} (h : S.ReachesWhen allowed s) : S.Reaches s :=
  h.mono fun _ _ _ => trivial

theorem Reaches.invariant {I : σ → Prop} (hinit : ∀ s, S.initial s → I s)
    (hstep : ∀ s e s', I s → S.step s e s' → I s') {s : σ} (h : S.Reaches s) : I s :=
  ReachesWhen.invariant hinit (fun _ _ _ hI _ hs => hstep _ _ _ hI hs) h

end System
end PerCoreShard.Library
