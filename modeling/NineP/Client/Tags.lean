import NineP.Client.Exchange

/-!
# The tags of the client

The mirror tags are apart from the tags of the allocator, and no two callers hold one tag.
-/

namespace NineP.Client

open Proto Transition List

variable {μ ρ : Type}

/-! ## Mirror tags -/

theorem flushTagFor_toNat {tag : Tag} (h : tag < flushTagBit) : (flushTagFor tag).toNat = 2 ^ 15 + tag.toNat := by
  have hlt : tag.toNat < 2 ^ 15 := UInt16.lt_iff_toNat_lt.1 h
  have hor : tag.toNat ||| 2 ^ 15 = 2 ^ 15 + tag.toNat := by
    rw [Nat.or_comm]
    simpa using (Nat.two_pow_add_eq_or_of_lt hlt 1).symm
  rw [flushTagFor, UInt16.toNat_or]
  exact hor

theorem flushTagFor_ne (h : tag < flushTagBit) (h' : tag' < flushTagBit) : flushTagFor tag ≠ tag' := by
  intro heq
  have hlt : tag'.toNat < 2 ^ 15 := UInt16.lt_iff_toNat_lt.1 h'
  have := flushTagFor_toNat h
  rw [heq] at this
  omega

theorem flushTagFor_inj (h : tag < flushTagBit) (h' : tag' < flushTagBit)
    (heq : flushTagFor tag = flushTagFor tag') : tag = tag' := by
  have h1 := flushTagFor_toNat h
  have h2 := flushTagFor_toNat h'
  rw [heq] at h1
  exact UInt16.toNat_inj.1 (by omega)

/-! ## Held tags -/

/-- The tag that a caller holds. -/
def Pc.tag : Pc ρ → Option Tag
  | .acquired tag | .registered tag _ | .writing tag _ | .waiting tag _ _ | .received tag _ _ _ | .returning tag _ _ _
  | .abandoning tag _ _ | .flushing tag _ _ | .flushRegistered tag _ _ _ | .flushWriting tag _ _ _
  | .flushWaiting tag _ _ _ _ | .flushUnregistering tag _ _ | .unregistering tag _ _ | .releasing tag _ _ => some tag
  | _ => none

/-- What a caller's step does to the tags. -/
inductive TagMove (c : Shared μ ρ) (pc pc' : Pc ρ) (c' : Shared μ ρ) : Prop
  | keep (hfree : c'.free = c.free) (htag : pc'.tag = pc.tag ∨ pc'.tag = none)
  | acquire {tag : Tag} (hfree : c.free = tag :: c'.free) (htag : pc.tag = none) (htag' : pc'.tag = some tag)
  | release {tag : Tag} (hfree : c'.free = c.free ∨ c'.free = c.free ++ [tag]) (htag : pc.tag = some tag)
      (htag' : pc'.tag = none)

section Moves

variable {c : Shared μ ρ}

theorem release_free (maxInflight : Nat) (tag : Tag) :
    (c.release maxInflight tag).free = c.free ∨ (c.release maxInflight tag).free = c.free ++ [tag] := by
  unfold Shared.release
  split
  · exact .inr rfl
  · exact .inl rfl

theorem Moves.tagMove (h : Moves maxInflight c call pc pc' c') : TagMove c pc pc' c' := by
  cases h with
  | acquire hfree => exact .acquire hfree rfl rfl
  | releaseOk | release => exact .release (release_free _ _) rfl rfl
  | abandoned => exact .keep rfl (.inr rfl)
  | _ => exact .keep rfl (.inl rfl)

end Moves

/-- Every tag has one holder at most, and is no mirror tag. -/
structure TagInv (s : State μ ρ) : Prop where
  unique : ∀ t, s.shared.free.count t + s.calls.countP (·.pc.tag = some t) ≤ 1
  free : ∀ t ∈ s.shared.free, t < flushTagBit
  held : ∀ call ∈ s.calls, ∀ t, call.pc.tag = some t → t < flushTagBit

theorem mem_newTagAllocator (hn : n ≤ maxMaxInflight) (h : t ∈ newTagAllocator n) :
    t < flushTagBit := by
  obtain ⟨i, hi, rfl⟩ := mem_map.1 h
  have hi := mem_range.1 hi
  rw [UInt16.lt_iff_toNat_lt, UInt16.toNat_ofNat']
  have : flushTagBit.toNat = 32768 := rfl
  unfold maxMaxInflight at hn
  omega

theorem nodup_newTagAllocator (hn : n ≤ maxMaxInflight) : (newTagAllocator n).Nodup := by
  refine List.Nodup.map_on ?_ nodup_range
  intro i hi j hj heq
  have hi := mem_range.1 hi
  have hj := mem_range.1 hj
  have := congrArg UInt16.toNat heq
  rw [UInt16.toNat_ofNat', UInt16.toNat_ofNat'] at this
  unfold maxMaxInflight at hn
  omega

theorem init_tagInv (hn : n ≤ maxMaxInflight) : TagInv (init n : State μ ρ) where
  unique := fun t => nodup_iff_count_le_one.1 (nodup_newTagAllocator hn) t
  free := fun _ => mem_newTagAllocator hn
  held := by simp [init]

section Step

variable {s : State μ ρ} {call : Call μ ρ} {pc : Pc ρ}

theorem countP_calls (pc : Pc ρ) (t : Tag) (hk : s.calls[k]? = some call) :
    (s.calls.set k { call with pc }).countP (·.pc.tag = some t) + (if call.pc.tag = some t then 1 else 0) =
      s.calls.countP (·.pc.tag = some t) + if pc.tag = some t then 1 else 0 := by
  simpa using countP_set_add (fun call : Call μ ρ => call.pc.tag = some t) { call with pc } hk

theorem move_tagInv (hs : TagInv s) (hk : s.calls[k]? = some call)
    (h : Moves maxInflight s.shared call call.pc pc c) :
    TagInv ⟨c, s.calls.set k { call with pc }⟩ := by
  have hmem := mem_of_getElem? hk
  have hheld (hpc : ∀ t, pc.tag = some t → t < flushTagBit) :
      ∀ x ∈ s.calls.set k { call with pc }, ∀ t, x.pc.tag = some t → t < flushTagBit := by
    intro x hx t ht
    rcases mem_or_eq_of_mem_set hx with hx | rfl
    · exact hs.held x hx t ht
    · exact hpc t ht
  cases h.tagMove with
  | keep hfree htag =>
    refine ⟨fun t => ?_, hfree ▸ hs.free, hheld fun t ht => ?_⟩
    · have hcount := countP_calls pc t hk
      have := hs.unique t
      simp only [hfree]
      rcases htag with htag | htag <;> simp only [htag] at hcount
      · omega
      · simp only [reduceCtorEq, if_false] at hcount
        omega
    · rcases htag with htag | htag
      · exact hs.held call hmem t (htag ▸ ht)
      · rw [htag] at ht
        cases ht
  | @acquire tag hfree htag htag' =>
    refine ⟨fun t => ?_, fun t ht => hs.free t (by simp [hfree, ht]), hheld fun t ht => ?_⟩
    · have hcount := countP_calls pc t hk
      have hunique := hs.unique t
      simp only [htag, htag', reduceCtorEq, if_false, Option.some.injEq] at hcount
      rw [hfree, count_cons] at hunique
      simp only [beq_iff_eq] at hunique
      simp only
      omega
    · obtain rfl := Option.mem_unique htag' ht
      exact hs.free tag (by simp [hfree])
  | @release tag hfree htag htag' =>
    refine ⟨fun t => ?_, fun t ht => ?_, hheld fun t ht => ?_⟩
    · have hcount := countP_calls pc t hk
      have hunique := hs.unique t
      simp only [htag, htag', reduceCtorEq, if_false, Option.some.injEq] at hcount
      rcases hfree with hfree | hfree
      · simp only [hfree]
        omega
      · simp only [hfree, count_append, count_singleton, beq_iff_eq]
        omega
    · rcases hfree with hfree | hfree
      · exact hs.free t (hfree ▸ ht)
      · simp only [hfree, mem_append, mem_singleton] at ht
        rcases ht with ht | rfl
        · exact hs.free t ht
        · exact hs.held call hmem t htag
    · rw [htag'] at ht
      cases ht

theorem step_tagInv (hs : TagInv s) (h : Steps maxInflight s l s') : TagInv s' := by
  cases h with
  | call =>
    refine ⟨fun t => ?_, hs.free, fun x hx t ht => ?_⟩
    · have hnone : (Pc.acquiring : Pc ρ).tag = none := rfl
      simpa [countP_append, hnone] using hs.unique t
    · rcases mem_append.1 hx with hx | hx
      · exact hs.held x hx t ht
      · rw [mem_singleton.1 hx] at ht
        cases ht
  | move hk h => exact move_tagInv hs hk h
  | deliver =>
    have hfree (c : Shared μ ρ) (f : RFrame ρ) : (c.handOver f).free = c.free := by
      unfold Shared.handOver Shared.deliver
      split <;> rfl
    exact ⟨by simpa only [hfree] using hs.unique, by simpa only [hfree] using hs.free, hs.held⟩
  | _ => exact ⟨hs.unique, hs.free, hs.held⟩

theorem TagInv.eq (hs : TagInv s) {i j : Nat} {x y : Call μ ρ} (hi : s.calls[i]? = some x)
    (hj : s.calls[j]? = some y) (hx : x.pc.tag = some t) (hy : y.pc.tag = some t) : i = j := by
  have hunique := hs.unique t
  exact eq_of_countP_le_one (p := fun call : Call μ ρ => call.pc.tag = some t) (by omega) hi hj (by simp [hx])
    (by simp [hy])

end Step

end NineP.Client
