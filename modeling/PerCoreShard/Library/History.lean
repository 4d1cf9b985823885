import Mathlib.Data.List.Basic
import Mathlib.Data.List.Infix

/-! Logs of events and properties of the moment at which each event was recorded. -/
namespace PerCoreShard.Library

variable {ε : Type}

/-- `R past e` holds of every event `e` recorded after the events `past`, where `before`
was already recorded when the list began. -/
def Along (R : List ε → ε → Prop) : List ε → List ε → Prop
  | _,[] => True
  | before,e::es => R before e ∧ Along R (before ++ [e]) es

/-- Every event of the log satisfies `R` together with what was recorded before it. -/
def AtEvery (R : List ε → ε → Prop) (log : List ε) : Prop := Along R [] log

instance Along.decidable (R : List ε → ε → Prop) [∀ past e, Decidable (R past e)] :
    ∀ before log, Decidable (Along R before log)
  | _,[] => inferInstanceAs (Decidable True)
  | before,e::es =>
    have := Along.decidable R (before ++ [e]) es
    inferInstanceAs (Decidable (_ ∧ _))

instance (R : List ε → ε → Prop) [∀ past e, Decidable (R past e)] (log : List ε) :
    Decidable (AtEvery R log) :=
  Along.decidable R [] log

@[simp] theorem along_nil (R : List ε → ε → Prop) (before : List ε) : Along R before [] := trivial

@[simp] theorem along_cons (R : List ε → ε → Prop) (before : List ε) (e : ε) (es : List ε) :
    Along R before (e::es) ↔ R before e ∧ Along R (before ++ [e]) es := Iff.rfl

theorem along_append (R : List ε → ε → Prop) (before xs ys : List ε) :
    Along R before (xs ++ ys) ↔ Along R before xs ∧ Along R (before ++ xs) ys := by
  induction xs generalizing before with
  | nil => simp
  | cons x xs ih => simp [ih,and_assoc]

/-- What holds of an event whatever was recorded before it holds along every list of them. -/
theorem along_of_forall {R : List ε → ε → Prop} {es : List ε} (h : ∀ e ∈ es, ∀ past, R past e)
    (before : List ε) : Along R before es := by
  induction es generalizing before with
  | nil => trivial
  | cons e es ih =>
    obtain ⟨he,hes⟩ := List.forall_mem_cons.mp h
    exact ⟨he before,ih hes (before ++ [e])⟩

@[simp] theorem atEvery_nil (R : List ε → ε → Prop) : AtEvery R [] := trivial

@[simp] theorem atEvery_append (R : List ε → ε → Prop) (xs ys : List ε) :
    AtEvery R (xs ++ ys) ↔ AtEvery R xs ∧ Along R xs ys := by
  simp [AtEvery,along_append]

/-- The same property read off the splittings of the log. -/
theorem atEvery_iff (R : List ε → ε → Prop) (log : List ε) :
    AtEvery R log ↔ ∀ past e future, log = past ++ e::future → R past e := by
  constructor
  · rintro h past e future rfl
    simp only [atEvery_append,along_cons] at h
    exact h.2.1
  · intro h
    induction log using List.reverseRecOn with
    | nil => trivial
    | append_singleton xs x ih =>
      simp only [atEvery_append,along_cons,along_nil,and_true]
      refine ⟨ih ?_,h xs x [] rfl⟩
      intro past e future hs
      exact h past e (future ++ [x]) (by simp [hs])

/-- Induction over a log all of whose events satisfy `R`. -/
theorem AtEvery.induct {R : List ε → ε → Prop} {P : List ε → Prop} (hinit : P [])
    (hstep : ∀ log e, AtEvery R log → P log → R log e → P (log ++ [e])) {log : List ε}
    (h : AtEvery R log) : P log := by
  induction log using List.reverseRecOn with
  | nil => exact hinit
  | append_singleton log e ih =>
    obtain ⟨hlog,he,-⟩ := (atEvery_append R log [e]).mp h
    exact hstep log e hlog (ih hlog) he

end PerCoreShard.Library
