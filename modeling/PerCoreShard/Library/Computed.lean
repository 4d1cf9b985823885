import PerCoreShard.Library.Transition

/-! Transition systems whose steps are computed, so that a run can be computed too. -/
namespace PerCoreShard.Library

namespace System
variable {σ ε : Type}

/-- The system whose steps a function computes. -/
def computed (initial : σ → Prop) (next : σ → ε → Option σ) : System σ ε where
  initial := initial
  step s e s' := next s e = some s'

/-- A run, if each of its steps is possible. -/
def play (next : σ → ε → Option σ) : σ → List ε → Option σ
  | s,[] => some s
  | s,e::es => (next s e).bind fun s' => play next s' es

variable {initial : σ → Prop} {next : σ → ε → Option σ}

theorem Reaches.play {s s' : σ} {es : List ε} (h : (computed initial next).Reaches s)
    (hplay : System.play next s es = some s') : (computed initial next).Reaches s' := by
  induction es generalizing s with
  | nil => exact Option.some.inj hplay ▸ h
  | cons e es ih =>
    obtain ⟨t,ht,hrest⟩ := Option.bind_eq_some_iff.mp hplay
    exact ih (h.step trivial ht) hrest

/-- The state in which a run ends, if it is possible. -/
theorem Reaches.getD_play {s : σ} (h : (computed initial next).Reaches s) (es : List ε) :
    (computed initial next).Reaches ((System.play next s es).getD s) := by
  cases hplay : System.play next s es with
  | none => exact h
  | some s' => exact h.play hplay

end System
end PerCoreShard.Library
