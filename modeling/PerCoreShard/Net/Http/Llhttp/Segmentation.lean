import PerCoreShard.Net.Http.Llhttp.Parser

/-! The adapters do not see how their input was cut: feeding it in pieces, with bodies taken
out in between, leads to the state that one feed of the whole input leads to. -/
namespace PerCoreShard
open Library

/-- The body bytes a callback reports. -/
def Callback.body : Callback → Bytes
  | .onBody span => span
  | _ => []

/-- The body bytes reported by a sequence of callbacks, whatever message they belong to. -/
def bodyOf (cs : List Callback) : Bytes := cs.flatMap Callback.body

namespace LlhttpParser
variable {ll : Llhttp} {H : Type} [ParsedHead H]

/-- The adapter after all of `input`, nothing read out of its scratch. -/
def parsed (ll : Llhttp) (H : Type) [ParsedHead H] (input : Bytes) : LlhttpParser ll H :=
  { (ll.run ll.start input).out.foldl dispatch (create ll H) with
    parser := (ll.run ll.start input).state
    hasError := (ll.run ll.start input).failed }

@[simp] theorem parsed_hasError (input : Bytes) :
    (parsed ll H input).hasError = (ll.run ll.start input).failed := rfl
@[simp] theorem parsed_automaton (input : Bytes) :
    (parsed ll H input).parser = (ll.run ll.start input).state := rfl

theorem parsed_nil : parsed ll H [] = create ll H := rfl

theorem dispatch_with (p : LlhttpParser ll H) (rest : Bytes) (st : ll.State) (err : Bool)
    (c : Callback) :
    dispatch { p with scratch := rest, parser := st, hasError := err } c =
      { dispatch p c with scratch := rest ++ c.body, parser := st, hasError := err } := by
  cases c <;> simp [dispatch,Callback.body]

/-- The callbacks read neither the scratch nor the automaton. -/
theorem foldl_dispatch_with (cs : List Callback) (p : LlhttpParser ll H) (rest : Bytes)
    (st : ll.State) (err : Bool) :
    cs.foldl dispatch { p with scratch := rest, parser := st, hasError := err } =
      { cs.foldl dispatch p with scratch := rest ++ bodyOf cs, parser := st, hasError := err } := by
  induction cs generalizing p rest with
  | nil => simp [bodyOf]
  | cons c cs ih =>
    simp only [List.foldl_cons,dispatch_with,ih]
    simp [bodyOf,List.append_assoc]

theorem scratch_foldl_dispatch (cs : List Callback) (p : LlhttpParser ll H) :
    (cs.foldl dispatch p).scratch = p.scratch ++ bodyOf cs :=
  congrArg LlhttpParser.scratch (foldl_dispatch_with cs p p.scratch p.parser p.hasError)

theorem hasError_foldl_dispatch (cs : List Callback) (p : LlhttpParser ll H) :
    (cs.foldl dispatch p).hasError = p.hasError := by
  have h := congrArg LlhttpParser.hasError
    (foldl_dispatch_with cs p p.scratch p.parser p.hasError)
  exact h

theorem parsed_scratch (input : Bytes) :
    (parsed ll H input).scratch = bodyOf (ll.run ll.start input).out := by
  simp [parsed,scratch_foldl_dispatch,create]

/-- After a failure the adapter ignores its input. -/
theorem parsed_append_of_failed {input : Bytes} (raw : Bytes)
    (h : (parsed ll H input).hasError = true) : parsed ll H (input ++ raw) = parsed ll H input := by
  simp only [parsed,ll.run_append_of_failed raw h]

/-- The callbacks that `raw` adds to those of `input`. -/
theorem parsed_append_of_not_failed {input : Bytes} (raw : Bytes)
    (h : (parsed ll H input).hasError = false) :
    parsed ll H (input ++ raw) =
      { (ll.execute (parsed ll H input).parser raw).callbacks.foldl dispatch (parsed ll H input) with
        parser := (ll.run (parsed ll H input).parser raw).state
        hasError := (ll.run (parsed ll H input).parser raw).failed } := by
  have hr := ll.run_append_of_not_failed raw h
  have hf := foldl_dispatch_with (ll.execute (parsed ll H input).parser raw).callbacks
    ((ll.run ll.start input).out.foldl dispatch (create ll H)) (parsed ll H input).scratch
    (parsed ll H input).parser (parsed ll H input).hasError
  have hp : parsed ll H input = { (ll.run ll.start input).out.foldl dispatch (create ll H) with
    scratch := (parsed ll H input).scratch, parser := (parsed ll H input).parser,
    hasError := (parsed ll H input).hasError } := rfl
  rw [← hp] at hf
  rw [hf]
  have hs : (parsed ll H (input ++ raw)).scratch = (parsed ll H input).scratch ++
      bodyOf (ll.execute (parsed ll H input).parser raw).callbacks := by
    simp only [parsed_scratch,hr,bodyOf,List.flatMap_append]
    rfl
  rw [← hs]
  simp only [parsed,hr,List.foldl_append,Llhttp.execute]

/-- What a feed does to an adapter that can still make progress. -/
theorem feed_with {p : LlhttpParser ll H} (rest raw : Bytes) (he : p.hasError = false)
    (hm : p.messageDone = false) :
    ({ p with scratch := rest }.feed raw).2 =
      { (ll.execute p.parser raw).callbacks.foldl dispatch p with
        scratch := rest ++ bodyOf (ll.execute p.parser raw).callbacks
        parser := (ll.run p.parser raw).state
        hasError := (ll.run p.parser raw).failed } := by
  have hf := foldl_dispatch_with (ll.execute p.parser raw).callbacks p rest p.parser p.hasError
  simp only [feed,he,hm,Bool.or_self,Bool.false_eq_true,if_false] at hf ⊢
  cases hr : (ll.run p.parser raw).failed <;>
    simp only [Llhttp.execute,hr,Bool.false_eq_true,if_false,if_true] at hf ⊢ <;> rw [hf]

/-- One feed continues the parse, whatever part of the body was taken out before it. -/
theorem feed_parsed (input rest raw : Bytes)
    (hm : (parsed ll H input).messageDone = false) :
    ∃ more, (parsed ll H (input ++ raw)).scratch = (parsed ll H input).scratch ++ more ∧
      ({ parsed ll H input with scratch := rest }.feed raw).2 =
        { parsed ll H (input ++ raw) with scratch := rest ++ more } := by
  cases he : (parsed ll H input).hasError with
  | true =>
    refine ⟨[],by rw [parsed_append_of_failed raw he,List.append_nil],?_⟩
    rw [parsed_append_of_failed raw he,feed,if_pos (by simp only [he,Bool.true_or]),List.append_nil]
  | false =>
    refine ⟨bodyOf (ll.execute (parsed ll H input).parser raw).callbacks,?_,?_⟩
    · rw [parsed_append_of_not_failed raw he]
      exact scratch_foldl_dispatch _ _
    · rw [feed_with rest raw he hm,parsed_append_of_not_failed raw he]

/-- A feed that leaves the adapter without an error has consumed all of its input. -/
theorem feed_consumed {p : LlhttpParser ll H} (raw : Bytes) (hm : p.messageDone = false)
    (he : (p.feed raw).2.hasError = false) : (p.feed raw).1 = raw.length := by
  cases hp : p.hasError with
  | true => simp [feed,hp] at he
  | false =>
    cases hr : (ll.run p.parser raw).failed with
    | true => simp [feed,hp,hm,Llhttp.execute,hr] at he
    | false => simp [feed,hp,hm,Llhttp.execute,hr]

/-- The number of bytes consumed by the feed that fails. -/
theorem feed_failed {p : LlhttpParser ll H} (raw : Bytes) (hm : p.messageDone = false)
    (hp : p.hasError = false) (he : (p.feed raw).2.hasError = true) :
    (p.feed raw).1 = (ll.errorPos p.parser raw).getD 0 ∧ (ll.run p.parser raw).failed = true := by
  cases hr : (ll.run p.parser raw).failed with
  | true => simp [feed,hp,hm,Llhttp.execute,hr]
  | false => simp [feed,hp,hm,Llhttp.execute,hr,hasError_foldl_dispatch] at he

theorem feed_le (p : LlhttpParser ll H) (raw : Bytes) : (p.feed raw).1 ≤ raw.length := by
  unfold feed
  split
  · exact Nat.zero_le _
  · cases hr : (ll.run p.parser raw).failed with
    | false => simp [Llhttp.execute,hr]
    | true =>
      cases hpos : ll.errorPos p.parser raw with
      | none => simp [Llhttp.execute,hr,hpos]
      | some n => simpa [Llhttp.execute,hr,hpos] using ll.errorPos_le _ _ _ hpos

/-- A feed of nothing changes nothing. -/
theorem feed_nil (p : LlhttpParser ll H) : p.feed [] = (0,p) := by
  simp [feed,Llhttp.execute]

/-- A parser in error consumes nothing and does not change. -/
theorem feed_of_hasError {p : LlhttpParser ll H} (raw : Bytes) (h : p.hasError = true) :
    p.feed raw = (0,p) := by
  simp [feed,h]

/-- The flags of an adapter inside the given part of a message. -/
def Flags (p : LlhttpParser ll H) : Section → Prop
  | .idle => p.messageDone = p.headerDone
  | .head => p.headerDone = false ∧ p.messageDone = false
  | .body => p.headerDone = true ∧ p.messageDone = false

theorem Flags.dispatch {p : LlhttpParser ll H} {s t : Section} {c : Callback} (h : p.Flags s)
    (ht : s.after c = some t) : (p.dispatch c).Flags t := by
  cases s <;> cases c <;> simp only [Section.after,Option.some.injEq,reduceCtorEq] at ht <;>
    subst ht <;> simp_all [Flags,LlhttpParser.dispatch]

theorem Flags.follow {cs : List Callback} {p : LlhttpParser ll H} {s t : Section} (h : p.Flags s)
    (ht : s.follow cs = some t) : (cs.foldl LlhttpParser.dispatch p).Flags t := by
  induction cs generalizing p s with
  | nil =>
    simp only [Section.follow,Option.some.injEq] at ht
    exact ht ▸ h
  | cons c cs ih =>
    simp only [Section.follow,Option.bind_eq_some_iff] at ht
    obtain ⟨u,hu,ht⟩ := ht
    exact ih (h.dispatch hu) ht

theorem flags_parsed {input : Bytes} {t : Section}
    (ht : Section.idle.follow (ll.run ll.start input).out = some t) :
    (parsed ll H input).Flags t := by
  have hf := Flags.follow (p := create ll H) (s := .idle) rfl ht
  cases t <;> exact hf

/-- A complete message has a complete head. -/
theorem headerDone_of_messageDone {input : Bytes}
    (h : (parsed ll H input).messageDone = true) : (parsed ll H input).headerDone = true := by
  obtain ⟨t,ht⟩ := Option.isSome_iff_exists.mp (ll.ordered input)
  have hf : (parsed ll H input).Flags t := flags_parsed ht
  cases t <;> simp_all [Flags]

end LlhttpParser
end PerCoreShard
