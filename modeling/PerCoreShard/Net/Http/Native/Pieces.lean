import PerCoreShard.Net.Http.Native.Serializer

/-! Bodies as a serializer is given them: a list of pieces, of which the last one is marked. -/
namespace PerCoreShard

/-- A piece flagged as the last one is among the pieces provided. -/
def final (provided : List (Bytes × Bool)) : Bool := provided.any fun p => p.2

/-- What a serializer makes of a list of pieces. -/
def encodeAll (chunked : Bool) (provided : List (Bytes × Bool)) : Bytes :=
  provided.flatMap fun p => Serializer.encode chunked p.1 p.2

/-- The body bytes in the pieces given to a serializer. -/
def payload (provided : List (Bytes × Bool)) : Bytes := provided.flatMap fun p => p.1

/-- The pieces that are not empty. -/
def pieces (provided : List (Bytes × Bool)) : List Bytes :=
  (provided.map fun p => p.1).filter fun chunk => !chunk.isEmpty

/-- A whole body: its last piece is marked, and no other. -/
def flagged : List Bytes → List (Bytes × Bool)
  | [] => []
  | [chunk] => [(chunk,true)]
  | chunk::chunks => (chunk,false)::flagged chunks

@[simp] theorem final_append (provided : List (Bytes × Bool)) (p : Bytes × Bool) :
    final (provided ++ [p]) = (final provided || p.2) := by
  simp [final]

@[simp] theorem encodeAll_append (chunked : Bool) (provided : List (Bytes × Bool))
    (p : Bytes × Bool) : encodeAll chunked (provided ++ [p]) =
      encodeAll chunked provided ++ Serializer.encode chunked p.1 p.2 := by
  simp [encodeAll]

theorem flatten_pieces (provided : List (Bytes × Bool)) :
    (pieces provided).flatten = payload provided := by
  induction provided with
  | nil => rfl
  | cons p provided ih =>
    obtain ⟨chunk,isLast⟩ := p
    unfold pieces payload at ih ⊢
    cases chunk with
    | nil => simpa using ih
    | cons b bs => simpa using ih

theorem ne_nil_of_mem_pieces {provided : List (Bytes × Bool)} {chunk : Bytes}
    (h : chunk ∈ pieces provided) : chunk ≠ [] := by
  have := (List.mem_filter.mp h).2
  simpa using this

theorem encodeAll_verbatim (provided : List (Bytes × Bool)) :
    encodeAll false provided = payload provided := rfl

theorem encodeAll_unfinished {provided : List (Bytes × Bool)} (h : final provided = false) :
    encodeAll true provided = (pieces provided).flatMap sizedChunk := by
  induction provided with
  | nil => rfl
  | cons p provided ih =>
    obtain ⟨chunk,isLast⟩ := p
    obtain ⟨rfl,hrest⟩ : isLast = false ∧ final provided = false := by simpa [final] using h
    have ih := ih hrest
    unfold encodeAll pieces at ih ⊢
    rw [List.flatMap_cons,ih]
    cases chunk with
    | nil => simp [Serializer.encode,chunkFrame]
    | cons b bs => simp [Serializer.encode,chunkFrame,sizedChunk]

/-- A chunked body that is given to its end: one frame for every piece that is not empty, and
one that ends the body. -/
theorem encodeAll_chunked {provided : List (Bytes × Bool)} (hf : final provided = true)
    (honly : final provided.dropLast = false) :
    encodeAll true provided = (pieces provided).flatMap sizedChunk ++ lastChunk := by
  have hne : provided ≠ [] := by
    rintro rfl
    cases hf
  obtain ⟨init,⟨chunk,isLast⟩,rfl⟩ : ∃ init p, provided = init ++ [p] :=
    ⟨_,_,(List.dropLast_append_getLast hne).symm⟩
  rw [List.dropLast_concat] at honly
  rw [final_append,honly,Bool.false_or] at hf
  obtain rfl : isLast = true := hf
  rw [encodeAll_append,encodeAll_unfinished honly]
  have hp : pieces (init ++ [(chunk,true)]) = pieces init ++ pieces [(chunk,true)] := by
    simp [pieces]
  rw [hp,List.flatMap_append,List.append_assoc]
  congr 1
  cases chunk with
  | nil => simp [pieces,Serializer.encode,chunkFrame,lastChunk]
  | cons b bs => simp [pieces,Serializer.encode,chunkFrame,sizedChunk,lastChunk]

theorem flagged_cons {chunks : List Bytes} (h : chunks ≠ []) (chunk : Bytes) :
    flagged (chunk::chunks) = (chunk,false)::flagged chunks := by
  cases chunks with
  | nil => exact absurd rfl h
  | cons next chunks => rfl

theorem flagged_concat (chunks : List Bytes) (chunk : Bytes) :
    flagged (chunks ++ [chunk]) = chunks.map (fun c => (c,false)) ++ [(chunk,true)] := by
  induction chunks with
  | nil => rfl
  | cons c chunks ih => rw [List.cons_append,flagged_cons (by simp),ih,List.map_cons,List.cons_append]

theorem final_unmarked (chunks : List Bytes) : final (chunks.map fun c => (c,false)) = false := by
  simp [final]

/-- A marked piece is followed by none. -/
theorem eq_flagged_of_final {chunks : List Bytes} {provided : List (Bytes × Bool)}
    (h : provided <+: flagged chunks) (hf : final provided = true) : provided = flagged chunks := by
  induction chunks generalizing provided with
  | nil => exact List.prefix_nil.mp h
  | cons chunk chunks ih =>
    cases provided with
    | nil => cases hf
    | cons p provided =>
      by_cases hc : chunks = []
      · subst hc
        obtain ⟨rfl,hrest⟩ := List.cons_prefix_cons.mp h
        rw [List.prefix_nil.mp hrest]
        rfl
      · rw [flagged_cons hc] at h ⊢
        obtain ⟨rfl,hrest⟩ := List.cons_prefix_cons.mp h
        rw [ih hrest (by simpa [final] using hf)]

end PerCoreShard
