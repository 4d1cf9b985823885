import PerCoreShard.Net.Http.Types

/-! Buffers and the free list of a shard they are taken from. -/
namespace PerCoreShard

/-- A buffer on the heap, known by the order in which it was made. -/
structure Buffer where
  id : ℕ
  data : Bytes
  deriving DecidableEq, Repr

/-- Fill the front of a buffer and keep the rest. -/
def Buffer.write (b : Buffer) (bytes : Bytes) : Buffer :=
  { b with data := bytes ++ b.data.drop bytes.length }

theorem Buffer.length_write {b : Buffer} {bytes : Bytes} (h : bytes.length ≤ b.data.length) :
    (b.write bytes).data.length = b.data.length := by
  simp only [Buffer.write,List.length_append,List.length_drop]
  omega

structure BufferPool where
  bufferSize : ℕ
  maxFree : ℕ
  freeList : List Buffer := []
  /-- The number of buffers made so far. -/
  created : ℕ := 0
  /-- The buffers that were destroyed because the free list was full. -/
  destroyed : List ℕ := []
  deriving DecidableEq, Repr

namespace BufferPool

def acquire (p : BufferPool) : Buffer × BufferPool :=
  match p.freeList.getLast? with
  | some b => (b,{ p with freeList := p.freeList.dropLast })
  | none => (⟨p.created,List.replicate p.bufferSize 0⟩,{ p with created := p.created + 1 })

def release (p : BufferPool) (b : Buffer) : BufferPool :=
  if p.maxFree ≤ p.freeList.length then { p with destroyed := p.destroyed ++ [b.id] }
  else { p with freeList := p.freeList ++ [b] }

/-- The free list keeps to its bound and holds buffers of the size of the pool. -/
structure Sound (p : BufferPool) : Prop where
  bounded : p.freeList.length ≤ p.maxFree
  sized : ∀ b ∈ p.freeList, b.data.length = p.bufferSize

/-- Every buffer that was made is in the free list, destroyed, or one of those outside, and
in one of these places only. -/
def Accounted (p : BufferPool) (outside : List ℕ) : Prop :=
  (p.freeList.map Buffer.id ++ p.destroyed ++ outside).Perm (List.range p.created)

theorem acquire_cases (p : BufferPool) :
    (∃ rest b, p.freeList = rest ++ [b] ∧ p.acquire = (b,{ p with freeList := rest })) ∨
      (p.freeList = [] ∧ p.acquire =
        (⟨p.created,List.replicate p.bufferSize 0⟩,{ p with created := p.created + 1 })) := by
  rcases List.eq_nil_or_concat p.freeList with hn | ⟨rest,b,hrest⟩
  · exact .inr ⟨hn,by simp [acquire,hn]⟩
  · refine .inl ⟨rest,b,by simpa using hrest,?_⟩
    simp [acquire,hrest]

theorem Sound.acquire {p : BufferPool} (h : p.Sound) :
    p.acquire.2.Sound ∧ p.acquire.1.data.length = p.bufferSize := by
  rcases p.acquire_cases with ⟨rest,b,hfree,heq⟩ | ⟨hfree,heq⟩
  · rw [heq]
    have hbound := h.bounded
    rw [hfree,List.length_append] at hbound
    exact ⟨⟨(Nat.le_add_right _ _).trans hbound,fun x hx => h.sized x (by simp [hfree,hx])⟩,
      h.sized b (by simp [hfree])⟩
  · rw [heq]
    exact ⟨⟨h.bounded,h.sized⟩,List.length_replicate⟩

theorem Accounted.acquire {p : BufferPool} {outside : List ℕ} (h : p.Accounted outside) :
    p.acquire.2.Accounted (outside ++ [p.acquire.1.id]) := by
  unfold Accounted at h ⊢
  rcases p.acquire_cases with ⟨rest,b,hfree,heq⟩ | ⟨hfree,heq⟩
  · rw [heq]
    refine List.Perm.trans ?_ h
    simp only [hfree,List.map_append,List.map_cons,List.map_nil,List.append_assoc]
    refine List.Perm.append_left _ ?_
    rw [← List.append_assoc]
    exact List.perm_append_comm
  · rw [heq]
    simp only [List.range_succ,← List.append_assoc]
    exact h.append_right _

theorem Sound.release {p : BufferPool} (h : p.Sound) {b : Buffer}
    (hb : b.data.length = p.bufferSize) : (p.release b).Sound := by
  unfold BufferPool.release
  split
  · exact ⟨h.bounded,h.sized⟩
  next hroom =>
    refine ⟨?_,fun x hx => ?_⟩
    · simp only [List.length_append,List.length_singleton]
      omega
    · rcases List.mem_append.mp hx with hx | hx
      · exact h.sized x hx
      · exact List.mem_singleton.mp hx ▸ hb

theorem Accounted.release {p : BufferPool} {b : Buffer} {outside : List ℕ}
    (h : p.Accounted (b.id::outside)) : (p.release b).Accounted outside := by
  unfold Accounted at h
  unfold BufferPool.release
  split
  · unfold Accounted
    simpa using h
  · unfold Accounted
    refine List.Perm.trans ?_ h
    simp only [List.map_append,List.map_cons,List.map_nil,List.append_assoc]
    refine List.Perm.append_left _ ?_
    simpa using List.perm_middle.symm

theorem acquire_config (p : BufferPool) :
    p.acquire.2.bufferSize = p.bufferSize ∧ p.acquire.2.maxFree = p.maxFree := by
  unfold BufferPool.acquire
  split <;> exact ⟨rfl,rfl⟩

theorem release_config (p : BufferPool) (b : Buffer) :
    (p.release b).bufferSize = p.bufferSize ∧ (p.release b).maxFree = p.maxFree := by
  unfold BufferPool.release
  split <;> exact ⟨rfl,rfl⟩

theorem Accounted.perm {p : BufferPool} {outside outside' : List ℕ} (h : p.Accounted outside)
    (hp : outside.Perm outside') : p.Accounted outside' :=
  (List.Perm.append_left _ hp.symm).trans h

/-- What is outside is not in the free list, and nothing is there twice. -/
theorem Accounted.nodup {p : BufferPool} {outside : List ℕ} (h : p.Accounted outside) :
    (p.freeList.map Buffer.id ++ outside).Nodup := by
  have hall := h.nodup_iff.mpr List.nodup_range
  rw [List.append_assoc] at hall
  exact hall.sublist ((List.Sublist.refl _).append (List.sublist_append_right _ _))

/-- Several buffers given back one after the other. -/
theorem releaseAll {p : BufferPool} {bs : List Buffer} {outside : List ℕ} (hs : p.Sound)
    (ha : p.Accounted (bs.map Buffer.id ++ outside)) (hb : ∀ b ∈ bs, b.data.length = p.bufferSize) :
    (bs.foldl release p).Sound ∧ (bs.foldl release p).Accounted outside ∧
      (bs.foldl release p).bufferSize = p.bufferSize ∧ (bs.foldl release p).maxFree = p.maxFree := by
  induction bs generalizing p with
  | nil => exact ⟨hs,ha,rfl,rfl⟩
  | cons b bs ih =>
    obtain ⟨hsize,hmax⟩ := p.release_config b
    have hbs : ∀ x ∈ bs, x.data.length = (p.release b).bufferSize := fun x hx => by
      rw [hsize]
      exact hb x (List.mem_cons_of_mem _ hx)
    obtain ⟨h1,h2,h3,h4⟩ := ih (hs.release (hb b List.mem_cons_self)) (Accounted.release ha) hbs
    exact ⟨h1,h2,h3.trans hsize,h4.trans hmax⟩

end BufferPool
end PerCoreShard
