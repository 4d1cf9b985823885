import PerCoreShard.Net.Http.Native.Pieces
import PerCoreShard.Net.Http.Reader

/-! The chunked coding. What is appended piece by piece is read back as the pieces, whatever
follows it, and is complete only with its last byte. -/
namespace PerCoreShard

/-- One `append_chunk` for every piece. -/
def appendChunks (out : Bytes) (provided : List (Bytes × Bool)) : Bytes :=
  provided.foldl (fun out p => appendChunk out p.1 p.2) out

/-- Read a chunked body at the front of the bytes. -/
def decodeChunked (bytes : Bytes) : Option (Bytes × Bytes) := readChunks (bytes.length + 1) bytes

theorem crlf_isPrefixOf_append {bytes : Bytes} (h : 2 ≤ bytes.length) (more : Bytes) :
    crlf.isPrefixOf (bytes ++ more) = crlf.isPrefixOf bytes := by
  match bytes with
  | b::c::rest => rfl

theorem two_le_of_crlf {bytes : Bytes} (h : crlf.isPrefixOf bytes = true) : 2 ≤ bytes.length :=
  (List.isPrefixOf_iff_prefix.mp h).length_le

theorem readLine_more {bytes line rest : Bytes} (h : readLine bytes = some (line,rest))
    (more : Bytes) : readLine (bytes ++ more) = some (line,rest ++ more) := by
  induction bytes generalizing line rest with
  | nil => cases h
  | cons b bytes ih =>
    cases bytes with
    | nil => simp [readLine,crlf,List.isPrefixOf] at h
    | cons c bytes =>
      have hpre : crlf.isPrefixOf (b::c::bytes ++ more) = crlf.isPrefixOf (b::c::bytes) :=
        crlf_isPrefixOf_append (by simp) more
      rw [List.cons_append,readLine,← List.cons_append,hpre]
      rw [readLine] at h
      split at h
      · obtain ⟨rfl,rfl⟩ : [] = line ∧ (c::bytes).drop 1 = rest := by simpa using h
        next hp => simp [hp]
      · next hp =>
        obtain ⟨⟨line',rest'⟩,hread,heq⟩ := Option.map_eq_some_iff.mp h
        obtain ⟨rfl,rfl⟩ : b::line' = line ∧ rest' = rest := by simpa using heq
        have hmore := ih hread
        rw [List.cons_append] at hmore
        simp [hp,hmore]

theorem readTrailers_more {fuel fuel' : ℕ} {bytes rest : Bytes}
    (h : readTrailers fuel bytes = some rest) (hfuel : fuel ≤ fuel') (more : Bytes) :
    readTrailers fuel' (bytes ++ more) = some (rest ++ more) := by
  induction fuel generalizing fuel' bytes with
  | zero => cases h
  | succ fuel ih =>
    obtain ⟨fuel',rfl⟩ : ∃ n, fuel' = n + 1 := Nat.exists_eq_succ_of_ne_zero (by omega)
    obtain ⟨⟨line,behind⟩,hline,hrest⟩ := Option.bind_eq_some_iff.mp h
    rw [readTrailers,readLine_more hline more]
    simp only [Option.bind_eq_bind,Option.bind_some]
    dsimp only at hrest
    split at hrest
    next hempty =>
      obtain rfl : behind = rest := by simpa using hrest
      rw [if_pos hempty]
    next hempty =>
      rw [if_neg hempty]
      exact ih hrest (by omega)

theorem readChunks_more {fuel fuel' : ℕ} {bytes body rest : Bytes}
    (h : readChunks fuel bytes = some (body,rest)) (hfuel : fuel ≤ fuel') (more : Bytes) :
    readChunks fuel' (bytes ++ more) = some (body,rest ++ more) := by
  induction fuel generalizing fuel' bytes body with
  | zero => cases h
  | succ fuel ih =>
    obtain ⟨fuel',rfl⟩ : ∃ n, fuel' = n + 1 := Nat.exists_eq_succ_of_ne_zero (by omega)
    obtain ⟨⟨line,behind⟩,hline,hsize⟩ := Option.bind_eq_some_iff.mp h
    obtain ⟨size,hnumber,hbody⟩ := Option.bind_eq_some_iff.mp hsize
    rw [readChunks,readLine_more hline more]
    simp only [Option.bind_eq_bind,Option.bind_some]
    rw [hnumber,Option.bind_some]
    split at hbody
    next hzero =>
      obtain ⟨tail,htail,heq⟩ := Option.map_eq_some_iff.mp hbody
      obtain ⟨rfl,rfl⟩ : [] = body ∧ tail = rest := by simpa using heq
      rw [if_pos hzero,readTrailers_more htail (by simp) more]
      rfl
    next hzero =>
      split at hbody
      next hend =>
        obtain ⟨⟨body',rest'⟩,hchunks,heq⟩ := Option.map_eq_some_iff.mp hbody
        obtain ⟨rfl,rfl⟩ : behind.take size ++ body' = body ∧ rest' = rest := by simpa using heq
        have hlen := two_le_of_crlf hend
        rw [List.length_drop] at hlen
        have hdrop : (behind ++ more).drop size = behind.drop size ++ more :=
          List.drop_append_of_le_length (by omega)
        have hdrop2 : (behind ++ more).drop (size + 2) = behind.drop (size + 2) ++ more :=
          List.drop_append_of_le_length (by omega)
        have htake : (behind ++ more).take size = behind.take size :=
          List.take_append_of_le_length (by omega)
        rw [if_neg hzero,hdrop,hdrop2,htake,
          crlf_isPrefixOf_append (two_le_of_crlf hend),if_pos hend,ih hchunks (by omega)]
        rfl
      next => cases hbody

theorem appendChunks_eq (out : Bytes) (provided : List (Bytes × Bool)) :
    appendChunks out provided = out ++ encodeAll true provided := by
  induction provided generalizing out with
  | nil => simp [appendChunks,encodeAll]
  | cons p provided ih =>
    rw [appendChunks,List.foldl_cons]
    change appendChunks (appendChunk out p.1 p.2) provided = _
    rw [ih,appendChunk,List.append_assoc]
    rfl

theorem appendChunks_flagged (init : List Bytes) (last : Bytes) :
    appendChunks [] (flagged (init ++ [last])) =
      (pieces (flagged (init ++ [last]))).flatMap sizedChunk ++ lastChunk := by
  rw [appendChunks_eq,List.nil_append]
  have hdropped : (flagged (init ++ [last])).dropLast = init.map fun c => (c,false) := by
    rw [flagged_concat,List.dropLast_concat]
  refine encodeAll_chunked ?_ (hdropped ▸ final_unmarked init)
  rw [flagged_concat,final_append,Bool.or_true]

theorem payload_flagged (init : List Bytes) (last : Bytes) :
    payload (flagged (init ++ [last])) = (init ++ [last]).flatten := by
  rw [flagged_concat]
  simp [payload,List.flatMap_map]

/-- Whatever the pieces are and whatever follows, what was appended for them is read back as
the pieces, to its last byte and not before it. -/
theorem chunked_coding (init : List Bytes) (last : Bytes) :
    (∀ tail, decodeChunked (appendChunks [] (flagged (init ++ [last])) ++ tail) =
      some ((init ++ [last]).flatten,tail)) ∧
    ∀ bytes, bytes <+: appendChunks [] (flagged (init ++ [last])) →
      bytes ≠ appendChunks [] (flagged (init ++ [last])) → ∀ fuel, readChunks fuel bytes = none := by
  have hread : ∀ fuel, (pieces (flagged (init ++ [last]))).length < fuel → ∀ tail,
      readChunks fuel (appendChunks [] (flagged (init ++ [last])) ++ tail) =
        some ((init ++ [last]).flatten,tail) := by
    intro fuel hfuel tail
    rw [appendChunks_flagged,readChunks_flatMap (fun _ => ne_nil_of_mem_pieces) hfuel,
      flatten_pieces,payload_flagged]
  constructor
  · intro tail
    refine hread _ ?_ tail
    have hlen := length_le_flatMap (pieces (flagged (init ++ [last])))
    rw [appendChunks_flagged]
    simp only [List.length_append]
    omega
  · rintro bytes ⟨more,hbytes⟩ hne fuel
    rw [Option.eq_none_iff_forall_ne_some]
    rintro ⟨body,rest⟩ h
    have hmore := readChunks_more h
      (Nat.le_add_right fuel ((pieces (flagged (init ++ [last]))).length + 1)) more
    have hall := hread (fuel + ((pieces (flagged (init ++ [last]))).length + 1)) (by omega) []
    rw [List.append_nil,← hbytes,hmore] at hall
    obtain ⟨-,hnil⟩ : body = _ ∧ rest ++ more = [] := by simpa using hall
    rw [(List.append_eq_nil_iff.mp hnil).2,List.append_nil] at hbytes
    exact hne hbytes

end PerCoreShard
