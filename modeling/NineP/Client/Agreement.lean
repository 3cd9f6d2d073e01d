import NineP.Client.Owners

/-!
# Client and server agree on fids

The steps of an operation keep `FidInv`; `cancelled_attach` is a run in which a fid for reuse is bound.
-/

namespace NineP.Client

open Proto Program Transition List Option

variable {req : Request} {k : Except Err Reply → Op (Except Error Unit)}

/-! ## Steps of a thread -/

section Threads

variable {s s' : Session} {g g' : Ghost} {t : Nat} {x : Fid} {c : Shared Request Reply} {W : Nat → Nat → Prop}
  {o : Owner} {op : Op (Except Error Unit)} {st : Status}

theorem Served.give (h : Served c W g.owner) (hx : g.owner x ≠ .lost) (ho : x ∈ c.bound → OwnerOk c W x o) :
    Served c W (g.give x o).owner where
  bound := by
    intro y hy
    by_cases hxy : y = x
    · subst hxy
      rw [Ghost.give_self]
      exact ho hy
    · rw [Ghost.give_of_ne hxy]
      exact h.bound y hy
  clunked := h.clunked
  live := by
    intro i tag req hlive hsent
    refine (h.live i tag req hlive hsent).imp_right fun hlost y hy => ?_
    rw [Ghost.give_of_ne]
    · exact hlost y hy
    · rintro rfl
      exact hx (hlost y hy)

theorem Served.leave (h : Served c W g.owner)
    (howner : ∀ y, g'.owner y = g.owner y ∨ ∃ st, g.owner y = .thread t st)
    (hok : ∀ y ∈ c.bound, ∀ st, g.owner y = .thread t st → OwnerOk c (fun t' i => t' ≠ t ∧ W t' i) y (g'.owner y))
    (hlive : ∀ i tag req, W t i → c.Live i → c.sent[i]? = some ⟨tag, .other req⟩ → ∀ y ∈ req.fids, g'.owner y = .lost) :
    Served c (fun t' i => t' ≠ t ∧ W t' i) g'.owner where
  bound := by
    intro y hy
    by_cases hthread : ∃ st, g.owner y = .thread t st
    · obtain ⟨st, hst⟩ := hthread
      exact hok y hy st hst
    · rw [(howner y).resolve_right hthread]
      have hy := h.bound y hy
      unfold OwnerOk at hy ⊢
      split at hy
      · exact hy
      · exact hy
      · rename_i t' heq
        obtain ⟨f, hf, hw, hb⟩ := hy
        refine ⟨f, hf, ⟨?_, hw⟩, hb⟩
        rintro rfl
        exact hthread ⟨_, heq⟩
      · trivial
  clunked := fun t' i tag y hw => h.clunked t' i tag y hw.2
  live := by
    intro i tag req hl hsent
    rcases h.live i tag req hl hsent with ⟨t', hw⟩ | hlost
    · by_cases ht : t' = t
      · exact .inr (hlive i tag req (ht ▸ hw) hl hsent)
      · exact .inl ⟨t', ht, hw⟩
    · refine .inr fun y hy => ?_
      rcases howner y with h | ⟨st, h⟩
      · exact h.trans (hlost y hy)
      · rw [hlost y hy] at h
        cases h

theorem not_waits (ht : s.threads[t]? = some { op }) (i : Nat) : ¬s.Waits t i := by
  rintro ⟨th, j, call, hth, hj, -⟩
  obtain rfl := mem_unique ht hth
  cases hj

theorem waits_set_iff (hlt : t < s.threads.length) (hcall : th.call = none)
    (hthreads : s'.threads = s.threads.set t th) (hcalls : s'.net.calls = s.net.calls) (t' i : Nat) :
    s'.Waits t' i ↔ t' ≠ t ∧ s.Waits t' i := by
  unfold Session.Waits
  rw [hthreads, hcalls]
  by_cases ht : t' = t
  · subst ht
    simp [getElem?_set_self hlt, hcall]
  · simp [getElem?_set_ne (Ne.symm ht), ht]

theorem FidInv.fresh_unbound (hs : FidInv s g) (ht : s.threads[t]? = some { op }) (hx : g.owner x = .thread t .fresh) :
    x ∉ s.net.shared.bound := by
  intro hbound
  have hok := hs.served.bound x hbound
  rw [hx] at hok
  obtain ⟨f, -, hw, -⟩ := hok
  exact not_waits ht _ hw

theorem FidInv.next {c : Cmd} {k : c.Res → Op (Except Error Unit)} {r : c.Res} (hs : FidInv s g)
    (ht : s.threads[t]? = some { op := .cmd c k })
    (hnet : s'.net = s.net) (hthreads : s'.threads = s.threads.set t { op := k r })
    (hpost : rules.post c (g.res t) r (g'.res t)) (hother : ∀ t', t' ≠ t → g'.res t' = g.res t')
    (hfuture : ∀ x, g'.owner x = .future ↔ s'.fids.next ≤ x) (hfree : ∀ x ∈ s'.fids.reuse, g'.owner x = .free)
    (hnodup : s'.fids.reuse.Nodup)
    (hfiles : ∀ (f : Nat) (file : File), s'.files[f]? = some file → file.closed = false → g'.owner file.fid = .file f)
    (hlocks : ∀ t f fid, g'.lock t = some (f, fid) →
      ∃ file : File, s'.files[f]? = some file ∧ file.fid = fid ∧ file.closed = false ∧ t ∈ file.readers)
    (hserved : Served s.net.shared s.Waits g'.owner) : FidInv s' g' := by
  have hlt := getElem?_lt ht
  have hcases {t' : Nat} {th : Thread} (h : s'.threads[t']? = some th) :
      t' = t ∧ th = { op := k r } ∨ t' ≠ t ∧ s.threads[t']? = some th := by
    rw [hthreads] at h
    exact getElem?_set_cases h
  have hwaits : s'.Waits = s.Waits := by
    funext t' i
    rw [eq_iff_iff, waits_set_iff hlt rfl hthreads (by rw [hnet]), and_iff_right_iff_imp]
    rintro hw rfl
    exact not_waits ht i hw
  refine ⟨fun t' th h => ?_, fun t' h => ?_, hfuture, hfree, hnodup, hfiles, hlocks, fun t' th j h hj => ?_,
    fun j call h => ?_, ?_⟩
  · rcases hcases h with ⟨rfl, rfl⟩ | ⟨hne, h⟩
    · exact (hs.ops t' _ ht).2 r _ hpost
    · rw [hother t' hne]
      exact hs.ops t' th h
  · rw [hthreads, length_set] at h
    rw [hother t' (by omega)]
    exact hs.idle t' h
  · rcases hcases h with ⟨rfl, rfl⟩ | ⟨-, h⟩
    · cases hj
    · rw [hnet]
      exact hs.calls t' th j h hj
  · rw [hnet] at h
    refine (hs.waited j call h).imp_left fun ⟨t', th, hth, hj⟩ => ⟨t', th, ?_, hj⟩
    rw [hthreads, getElem?_set_ne]
    · exact hth
    · rintro rfl
      obtain rfl := mem_unique ht hth
      cases hj
  · rw [hnet, hwaits]
    exact hserved

theorem FidInv.take (hs : FidInv s g) (hx : g.owner x = .free ∨ g.owner x = .future) :
    (g.res t).fids x = none ∧ (g.give x (.thread t .fresh)).res t = (g.res t).set x (some .fresh) ∧
      (∀ t', t' ≠ t → (g.give x (.thread t .fresh)).res t' = g.res t') ∧
      (∀ (f : Nat) (file : File), s.files[f]? = some file → file.closed = false →
        (g.give x (.thread t .fresh)).owner file.fid = .file f) ∧
      Served s.net.shared s.Waits (g.give x (.thread t .fresh)).owner := by
  have hnone (t' : Nat) : (g.owner x).status t' = none := by rcases hx with hx | hx <;> rw [hx] <;> rfl
  refine ⟨hnone t, by rw [Ghost.give_res]; simp [Owner.status], fun t' ht' => ?_, fun f file hf hclosed => ?_, ?_⟩
  · exact Ghost.give_res_of_none (hnone t') (by simp [Owner.status, Ne.symm ht'])
  · have howner := hs.files f file hf hclosed
    rw [Ghost.give_of_ne]
    · exact howner
    · rintro rfl
      rcases hx with hx | hx <;> rw [hx] at howner <;> cases howner
  · refine hs.served.give ?_ fun hbound => ?_
    · rcases hx with hx | hx <;> rw [hx] <;> simp
    · have hok := hs.served.bound x hbound
      rcases hx with hx | hx <;> rw [hx] at hok <;> exact hok.elim

theorem acquire_fidInv {k : Option Fid → Op (Except Error Unit)} (hs : FidInv s g)
    (ht : s.threads[t]? = some { op := .cmd .acquire k }) :
    ∃ g', FidInv (({ s with fids := s.fids.acquire.2 } : Session).setThread t { op := k s.fids.acquire.1 }) g' := by
  unfold FidAllocator.acquire
  cases hlast : s.fids.reuse.getLast? with
  | some fid =>
    have hreuse : s.fids.reuse = s.fids.reuse.dropLast ++ [fid] := (dropLast_append_getLast? fid hlast).symm
    have howner : g.owner fid = .free := hs.free fid (by rw [hreuse]; simp)
    have hnodup := hs.nodup
    rw [hreuse, nodup_append] at hnodup
    obtain ⟨hnone, hres, hother, hfiles, hserved⟩ := hs.take (t := t) (.inl howner)
    refine ⟨_, hs.next ht rfl rfl ⟨hnone, hres⟩ hother (fun y => ?_) (fun y hy => ?_) hnodup.1 hfiles hs.locks hserved⟩
    · by_cases hy : y = fid
      · subst hy
        rw [Ghost.give_self]
        have := hs.future y
        rw [howner] at this
        simpa only [reduceCtorEq, false_iff, Session.setThread_fids] using this
      · rw [Ghost.give_of_ne hy]
        exact hs.future y
    · rw [Ghost.give_of_ne]
      · exact hs.free y (by rw [hreuse]; exact mem_append_left _ hy)
      · rintro rfl
        exact hnodup.2.2 y hy y (by simp) rfl
  | none =>
    dsimp only
    split
    · exact ⟨g, hs.next ht rfl rfl rfl (fun _ _ => rfl) hs.future hs.free hs.nodup hs.files hs.locks hs.served⟩
    · rename_i hlt
      have hlt : s.fids.next.toNat < noFid.toNat := by simpa [UInt32.le_iff_toNat_le] using hlt
      have hsucc : (s.fids.next + 1).toNat = s.fids.next.toNat + 1 := by
        rw [UInt32.toNat_add]
        have : noFid.toNat = 4294967295 := rfl
        simp only [UInt32.toNat_one]
        omega
      have howner : g.owner s.fids.next = .future := (hs.future _).2 (UInt32.le_refl _)
      obtain ⟨hnone, hres, hother, hfiles, hserved⟩ := hs.take (t := t) (.inr howner)
      refine ⟨_, hs.next ht rfl rfl ⟨hnone, hres⟩ hother (fun y => ?_) (fun y hy => ?_) hs.nodup hfiles hs.locks hserved⟩
      · by_cases hy : y = s.fids.next
        · subst hy
          rw [Ghost.give_self]
          simp only [Session.setThread_fids, reduceCtorEq, UInt32.le_iff_toNat_le, hsucc, false_iff]
          omega
        · rw [Ghost.give_of_ne hy, hs.future y]
          have hne : y.toNat ≠ s.fids.next.toNat := fun h => hy (UInt32.toNat_inj.1 h)
          simp only [Session.setThread_fids, UInt32.le_iff_toNat_le, hsucc]
          omega
      · rw [Ghost.give_of_ne]
        · exact hs.free y hy
        · rintro rfl
          rw [hs.free _ hy] at howner
          cases howner

theorem FidInv.give (hs : FidInv s g) (hx : g.owner x = .thread t st) (ho : ∀ t', o.status t' = none)
    (hbound : x ∈ s.net.shared.bound → OwnerOk s.net.shared s.Waits x o) :
    (g.give x o).res t = (g.res t).set x none ∧ (∀ t', t' ≠ t → (g.give x o).res t' = g.res t') ∧
      (∀ y, y ≠ x ∨ g.owner y = .free ∨ g.owner y = .future → (g.give x o).owner y = g.owner y) ∧
      (∀ (f : Nat) (file : File), s.files[f]? = some file → file.closed = false → (g.give x o).owner file.fid = .file f) ∧
      Served s.net.shared s.Waits (g.give x o).owner := by
  have hne {y : Fid} (hy : y ≠ x ∨ g.owner y = .free ∨ g.owner y = .future) : y ≠ x := by
    rcases hy with hy | hy
    · exact hy
    · rintro rfl
      rcases hy with hy | hy <;> rw [hx] at hy <;> cases hy
  refine ⟨by rw [Ghost.give_res, ho], fun t' ht' => ?_, fun y hy => Ghost.give_of_ne (hne hy), fun f file hf hclosed => ?_,
    hs.served.give (by rw [hx]; simp) hbound⟩
  · exact Ghost.give_res_of_none (by rw [hx]; simp [Owner.status, Ne.symm ht']) (ho t')
  · have howner := hs.files f file hf hclosed
    rw [Ghost.give_of_ne]
    · exact howner
    · rintro rfl
      rw [hx] at howner
      cases howner

theorem FidInv.give_future (hs : FidInv s g) (hx : g.owner x = .thread t st) (ho : o ≠ .future) (y : Fid) :
    (g.give x o).owner y = .future ↔ s.fids.next ≤ y := by
  by_cases hy : y = x
  · subst hy
    have := hs.future y
    rw [hx] at this
    simpa [ho] using this
  · rw [Ghost.give_of_ne hy]
    exact hs.future y

theorem release_fidInv {k : Unit → Op (Except Error Unit)} (hs : FidInv s g)
    (ht : s.threads[t]? = some { op := .cmd (.release fid) k }) :
    ∃ g', FidInv (({ s with fids := s.fids.release fid } : Session).setThread t { op := k () }) g' := by
  have howner : g.owner fid = .thread t .fresh := Ghost.res_some.1 (hs.ops t _ ht).1
  have hbound := hs.fresh_unbound ht howner
  have hmem : fid ∉ s.fids.reuse := by
    intro hmem
    rw [hs.free fid hmem] at howner
    cases howner
  unfold FidAllocator.release
  split
  · obtain ⟨hres, hother, hsame, hfiles, hserved⟩ :=
      hs.give (o := .free) howner (fun _ => rfl) fun h => absurd h hbound
    refine ⟨_, hs.next ht rfl rfl hres hother (hs.give_future howner (by simp)) (fun y hy => ?_) ?_ hfiles hs.locks hserved⟩
    · simp only [Session.setThread_fids, mem_append, mem_singleton] at hy
      rcases hy with hy | rfl
      · rw [hsame y (.inr (.inl (hs.free y hy)))]
        exact hs.free y hy
      · exact Ghost.give_self
    · simp only [Session.setThread_fids, nodup_append, nodup_singleton, mem_singleton, true_and]
      refine ⟨hs.nodup, ?_⟩
      rintro y hy _ rfl rfl
      exact hmem hy
  · obtain ⟨hres, hother, hsame, hfiles, hserved⟩ :=
      hs.give (o := .lost) howner (fun _ => rfl) fun h => absurd h hbound
    refine ⟨_, hs.next ht rfl rfl hres hother (hs.give_future howner (by simp)) (fun y hy => ?_) hs.nodup hfiles hs.locks
      hserved⟩
    rw [hsame y (.inr (.inl (hs.free y hy)))]
    exact hs.free y hy

theorem newFile_fidInv {k : Nat → Op (Except Error Unit)} (hs : FidInv s g)
    (ht : s.threads[t]? = some { op := .cmd (.newFile fid) k }) :
    ∃ g', FidInv (({ s with files := s.files ++ [{ fid }] } : Session).setThread t { op := k s.files.length }) g' := by
  have howner : g.owner fid = .thread t .own := Ghost.res_some.1 (hs.ops t _ ht).1
  obtain ⟨hres, hother, hsame, hfiles, hserved⟩ :=
    hs.give (o := .file s.files.length) howner (fun _ => rfl) fun _ => trivial
  refine ⟨_, hs.next ht rfl rfl hres hother (hs.give_future howner (by simp)) (fun y hy => ?_) hs.nodup
    (fun f file hf hclosed => ?_) (fun t' f y hl => ?_) hserved⟩
  · rw [hsame y (.inr (.inl (hs.free y hy)))]
    exact hs.free y hy
  · simp only [Session.setThread_files, getElem?_append] at hf
    split at hf
    · exact hfiles f file hf hclosed
    · have hlt := getElem?_lt hf
      simp only [length_singleton] at hlt
      obtain rfl : f = s.files.length := by omega
      obtain rfl : { fid } = file := by simpa using hf
      exact Ghost.give_self
  · obtain ⟨file, hfile, hrest⟩ := hs.locks t' f y hl
    refine ⟨file, ?_, hrest⟩
    rw [Session.setThread_files, getElem?_append_left (getElem?_lt hfile)]
    exact hfile

/-- A file changes, but for its fid and whether it is closed; the lock of `t` may be another. -/
theorem FidInv.setFile {c : Cmd} {k : c.Res → Op (Except Error Unit)} {r : c.Res} (hs : FidInv s g) (ht : s.threads[t]? = some { op := .cmd c k })
    (hfile : s.files[f]? = some file) (hfid : file'.fid = file.fid) (hclosed : file'.closed = file.closed)
    (hpost : rules.post c (g.res t) r { g.res t with lock := l })
    (hreaders : ∀ t', t' ≠ t → t' ∈ file.readers → t' ∈ file'.readers)
    (hlock : ∀ f' fid, l = some (f', fid) → f' = f ∧ fid = file.fid ∧ file.closed = false ∧ t ∈ file'.readers) :
    FidInv ((s.setFile f file').setThread t { op := k r }) (g.setLock t l) := by
  have hnew : (s.files.set f file')[f]? = some file' := by
    rw [set_same hfile _]
  refine hs.next ht rfl rfl (Ghost.setLock_res ▸ hpost) (fun t' h => Ghost.setLock_res_of_ne h) hs.future hs.free
    hs.nodup (fun f' x hx hopen => ?_) (fun t' f' fid hl => ?_) hs.served
  · rcases getElem?_set_cases hx with ⟨rfl, rfl⟩ | ⟨-, hx⟩
    · rw [hfid]
      exact hs.files f' file hfile (hclosed ▸ hopen)
    · exact hs.files f' x hx hopen
  · by_cases ht' : t' = t
    · subst ht'
      obtain ⟨rfl, rfl, hopen, hmem⟩ := hlock f' fid (by simpa [Ghost.setLock] using hl)
      exact ⟨file', hnew, hfid, hclosed.trans hopen, hmem⟩
    · obtain ⟨x, hx, hxfid, hopen, hmem⟩ := hs.locks t' f' fid (by simpa [Ghost.setLock, ht'] using hl)
      by_cases hf : f' = f
      · subst hf
        obtain rfl := mem_unique hfile hx
        exact ⟨file', hnew, hfid.trans hxfid, hclosed.trans hopen, hreaders t' ht' hmem⟩
      · refine ⟨x, ?_, hxfid, hopen, hmem⟩
        exact (getElem?_set_ne (Ne.symm hf)).trans hx

theorem beginClose_fidInv {k : Option Fid → Op (Except Error Unit)} (hs : FidInv s g)
    (ht : s.threads[t]? = some { op := .cmd (.beginClose f) k }) (hfile : s.files[f]? = some file)
    (hopen : file.closed = false) (hreaders : file.readers = []) :
    ∃ g', FidInv ((s.setFile f { file with writer := true, closed := true }).setThread t { op := k (some file.fid) }) g' := by
  have howner := hs.files f file hfile hopen
  have hne {y : Fid} (hy : g.owner y ≠ .file f) : y ≠ file.fid := by
    rintro rfl
    exact hy howner
  refine ⟨g.give file.fid (.thread t .own), hs.next ht rfl rfl ⟨?_, ?_⟩ (fun t' ht' => ?_) (fun y => ?_)
    (fun y hy => ?_) hs.nodup (fun f' x hx hopen' => ?_) (fun t' f' fid hl => ?_) ?_⟩
  · simp [Ghost.res, howner, Owner.status]
  · rw [Ghost.give_res]
    simp [Owner.status]
  · exact Ghost.give_res_of_none (by rw [howner]; rfl) (by simp [Owner.status, Ne.symm ht'])
  · by_cases hy : y = file.fid
    · have := hs.future y
      rw [hy, howner] at this
      simpa [hy] using this
    · rw [Ghost.give_of_ne hy]
      exact hs.future y
  · have hfree := hs.free y hy
    rw [Ghost.give_of_ne (hne (by rw [hfree]; simp))]
    exact hfree
  · rcases getElem?_set_cases hx with ⟨rfl, rfl⟩ | ⟨hf, hx⟩
    · cases hopen'
    · have hx := hs.files f' x hx hopen'
      rw [Ghost.give_of_ne (hne (by rw [hx]; simpa using hf))]
      exact hx
  · obtain ⟨x, hx, hxfid, hxopen, hmem⟩ := hs.locks t' f' fid hl
    refine ⟨x, ?_, hxfid, hxopen, hmem⟩
    refine (getElem?_set_ne ?_).trans hx
    rintro rfl
    obtain rfl := mem_unique hfile hx
    simp [hreaders] at hmem
  · exact hs.served.give (by rw [howner]; simp) fun _ => trivial

theorem exec_fidInv {c : Cmd} {k : c.Res → Op (Except Error Unit)} {x : c.Res} (hs : FidInv s g)
    (ht : s.threads[t]? = some { op := .cmd c k }) (h : s.exec t c = some (x, s')) (halive : s'.Alive) :
    ∃ g', FidInv (s'.setThread t { op := k x }) g' := by
  have hsame {s' : Session} (hnet : s'.net = s.net) (hfids : s'.fids = s.fids) (hfiles : s'.files = s.files)
      (hthreads : s'.threads = s.threads) (hpost : rules.post c (g.res t) x (g.res t)) :
      ∃ g', FidInv (s'.setThread t { op := k x }) g' := by
    refine ⟨g, hs.next ht hnet (by rw [Session.setThread, hthreads]) hpost (fun _ _ => rfl) ?_ ?_ ?_ ?_ ?_ hs.served⟩
    · rw [Session.setThread_fids, hfids]
      exact hs.future
    · rw [Session.setThread_fids, hfids]
      exact hs.free
    · rw [Session.setThread_fids, hfids]
      exact hs.nodup
    · rw [Session.setThread_files, hfiles]
      exact hs.files
    · rw [Session.setThread_files, hfiles]
      exact hs.locks
  cases c with
  | acquire =>
    cases h
    exact acquire_fidInv hs ht
  | release fid =>
    cases h
    exact release_fidInv hs ht
  | exchange => cases h
  | signalShutdown =>
    cases h
    cases halive.1
  | root | setRoot f =>
    cases h
    exact hsame rfl rfl rfl rfl rfl
  | newFile fid =>
    cases h
    exact newFile_fidInv hs ht
  | beginOp f =>
    obtain ⟨file, hfile, h⟩ := bind_eq_some_iff.1 h
    simp only [ite_none_left_eq_some] at h
    obtain ⟨-, h⟩ := h
    by_cases hclosed : file.closed <;> simp only [hclosed, if_true, if_false, Bool.false_eq_true] at h <;>
      cases h
    · exact hsame rfl rfl rfl rfl rfl
    · have hopen : file.closed = false := by simpa using hclosed
      refine ⟨_, hs.setFile (l := some (f, file.fid)) ht hfile rfl hopen.symm rfl
        (fun _ _ h => mem_cons_of_mem _ h) ?_⟩
      rintro f' fid ⟨⟩
      exact ⟨rfl, rfl, hopen, mem_cons_self⟩
  | endOp f =>
    obtain ⟨file, hfile, h⟩ := map_eq_some_iff.1 h
    cases h
    exact ⟨_, hs.setFile (l := none) ht hfile rfl rfl rfl
      (fun t' ht' h => (mem_erase_of_ne ht').2 h) (by simp)⟩
  | beginClose f =>
    obtain ⟨file, hfile, h⟩ := bind_eq_some_iff.1 h
    simp only [ite_none_left_eq_some] at h
    obtain ⟨hfree, h⟩ := h
    by_cases hclosed : file.closed <;> simp only [hclosed, if_true, if_false, Bool.false_eq_true] at h <;>
      cases h
    · exact hsame rfl rfl rfl rfl rfl
    · exact beginClose_fidInv hs ht hfile (by simpa using hclosed) (by simp_all)
  | endClose f =>
    obtain ⟨file, hfile, h⟩ := map_eq_some_iff.1 h
    cases h
    have hlock : (g.res t).lock = none := (hs.ops t _ ht).1
    exact ⟨_, hs.setFile (l := none) ht hfile rfl rfl (by rw [← hlock]; rfl) (fun _ _ h => h) (by simp)⟩

theorem FidInv.goOn {k : Except Err Reply → Op (Except Error Unit)} {o : Outcome Reply} (hs : FidInv s g)
    (ht : s.threads[t]? = some { op := .cmd (.exchange req zeroCopy flushOnCancel) k, call := some j })
    (hcall : s.net.calls[j]? = some call) (hpc : call.pc = .done o) (hresult : o.result ≠ .error .closed)
    (hres : g'.res t = (g.res t).after req o.result)
    (howner : ∀ y, g'.owner y = g.owner y ∨ ∃ st st', g.owner y = .thread t st ∧ (g'.owner y = .thread t st' ∨ g'.owner y = .lost))
    (hlock : g'.lock = g.lock)
    (hserved : Served s.net.shared (fun t' i => t' ≠ t ∧ s.Waits t' i) g'.owner) :
    FidInv (s.setThread t { op := k o.result }) g' := by
  have hlt := getElem?_lt ht
  have hthread {y : Fid} {o : Owner} (ho : o = .future ∨ o = .free ∨ ∃ f, o = .file f) :
      g'.owner y = o ↔ g.owner y = o := by
    rcases howner y with h | ⟨st, st', h, h' | h'⟩
    · rw [h]
    · rw [h, h']
      rcases ho with rfl | rfl | ⟨f, rfl⟩ <;> simp
    · rw [h, h']
      rcases ho with rfl | rfl | ⟨f, rfl⟩ <;> simp
  have hother (t' : Nat) (ht' : t' ≠ t) : g'.res t' = g.res t' := by
    simp only [Ghost.res, hlock, Res.mk.injEq, and_true]
    funext y
    rcases howner y with h | ⟨st, st', h, h' | h'⟩
    · rw [h]
    · rw [h, h']
      simp [Owner.status, Ne.symm ht']
    · rw [h, h']
      simp [Owner.status, Ne.symm ht']
  refine ⟨fun t' th h => ?_, fun t' h => ?_, fun y => ?_, fun y hy => (hthread (.inr (.inl rfl))).2 (hs.free y hy),
    hs.nodup, fun f file hf hopen => (hthread (.inr (.inr ⟨f, rfl⟩))).2 (hs.files f file hf hopen), ?_,
    fun t' th j' h hj => ?_, fun j' call' h => ?_, ?_⟩
  · rcases getElem?_set_cases h with ⟨rfl, rfl⟩ | ⟨hne, h⟩
    · exact (hs.ops t' _ ht).2 o.result _ ⟨hresult, hres⟩
    · rw [hother t' hne]
      exact hs.ops t' th h
  · simp only [Session.setThread, length_set] at h
    rw [hother t' (by omega)]
    exact hs.idle t' h
  · rw [hthread (.inl rfl)]
    exact hs.future y
  · rw [hlock]
    exact hs.locks
  · rcases getElem?_set_cases h with ⟨-, rfl⟩ | ⟨-, h⟩
    · cases hj
    · exact hs.calls t' th j' h hj
  · by_cases hj : j' = j
    · subst hj
      exact .inr ⟨o, mem_unique hcall h ▸ hpc⟩
    · obtain ⟨t', th, hth, hj'⟩ | hdone := hs.waited j' call' h
      · refine .inl ⟨t', th, (getElem?_set_ne ?_).trans hth, hj'⟩
        rintro rfl
        obtain rfl := mem_unique ht hth
        exact hj (Option.some.inj hj').symm
      · exact .inr hdone
  · have hwaits : (s.setThread t { op := k o.result }).Waits = fun t' i => t' ≠ t ∧ s.Waits t' i := by
      funext t' i
      exact propext (@waits_set_iff s (s.setThread t { op := k o.result }) t _ hlt rfl rfl rfl t' i)
    rw [hwaits]
    exact hserved

/-- Thread `t` has fid `x` with another status, or has lost it. -/
def Ghost.put (g : Ghost) (t : Nat) (x : Fid) (st : Option Status) : Ghost :=
  g.give x (st.elim .lost (.thread t))

theorem Ghost.put_res {st : Option Status} : (g.put t x st).res t = (g.res t).set x st := by
  rw [Ghost.put, Ghost.give_res]
  cases st <;> simp [Owner.status]

theorem Ghost.put_owner {st : Option Status} (hx : g.owner x = .thread t st₀) (y : Fid) :
    (g.put t x st).owner y = g.owner y ∨
      ∃ st₁ st', g.owner y = .thread t st₁ ∧ ((g.put t x st).owner y = .thread t st' ∨ (g.put t x st).owner y = .lost) := by
  by_cases hy : y = x
  · subst hy
    refine .inr ⟨st₀, (st.getD st₀), hx, ?_⟩
    rw [Ghost.put, Ghost.give_self]
    cases st <;> simp
  · exact .inl (Ghost.give_of_ne hy)

section Collect

variable {call : Call Request Reply} {o : Outcome Reply} (hs : FidInv s g) (hnet : MatchInv s.net)
  (ht : s.threads[t]? = some { op := .cmd (.exchange req zeroCopy flushOnCancel) k, call := some j })
  (hcall : s.net.calls[j]? = some call) (hpc : call.pc = .done o)
include ht hcall

theorem waits_id (hw : s.Waits t i) : call.pc.id = some i := by
  obtain ⟨th, j', call', hth, hj, hcall', hid⟩ := hw
  obtain rfl := mem_unique ht hth
  cases hj
  obtain rfl := mem_unique hcall hcall'
  exact hid

include hs hpc

theorem goOn_keep (hresult : o.result ≠ .error .closed) (hafter : (g.res t).after req o.result = g.res t)
    (hfresh : ∀ f ∈ s.net.shared.answered, ∀ y, s.Waits t f.id → s.net.shared.binds f ≠ some y)
    (hlive : ∀ i, s.Waits t i → ¬s.net.shared.Live i) : FidInv (s.setThread t { op := k o.result }) g := by
  refine hs.goOn ht hcall hpc hresult hafter.symm (fun _ => .inl rfl) rfl (hs.served.leave (fun _ => .inl rfl) ?_ ?_)
  · intro y hy st hst
    have hok := hs.served.bound y hy
    rw [hst] at hok ⊢
    cases st with
    | fresh =>
      obtain ⟨f, hf, hw, hb⟩ := hok
      exact absurd hb (hfresh f hf y hw)
    | own => trivial
  · intro i _ _ hw hl
    exact absurd hl (hlive i hw)

theorem goOn_put (st : Option Status) (hresult : o.result ≠ .error .closed)
    (hx : g.owner x = .thread t st₀) (hafter : (g.res t).after req o.result = (g.res t).set x st)
    (hst : st = some .fresh → x ∉ s.net.shared.bound)
    (hfresh : ∀ f ∈ s.net.shared.answered, ∀ y, s.Waits t f.id → s.net.shared.binds f = some y → y = x)
    (hlive : ∀ i tag m, s.Waits t i → s.net.shared.Live i → s.net.shared.sent[i]? = some ⟨tag, .other m⟩ →
      st = none ∧ m = .clunk x) : FidInv (s.setThread t { op := k o.result }) (g.put t x st) := by
  refine hs.goOn ht hcall hpc hresult (Ghost.put_res.trans hafter.symm) (Ghost.put_owner hx) rfl
    (hs.served.leave (fun y => (Ghost.put_owner hx y).imp_right fun ⟨st₁, _, h, _⟩ => ⟨st₁, h⟩) ?_ ?_)
  · intro y hy st₁ hst₁
    by_cases hyx : y = x
    · subst hyx
      rw [Ghost.put, Ghost.give_self]
      match st with
      | none | some .own => trivial
      | some .fresh => exact absurd hy (hst rfl)
    · have hok := hs.served.bound y hy
      rw [Ghost.put, Ghost.give_of_ne hyx]
      rw [hst₁] at hok ⊢
      cases st₁ with
      | fresh =>
        obtain ⟨f, hf, hw, hb⟩ := hok
        exact absurd (hfresh f hf y hw hb) hyx
      | own => trivial
  · intro i tag m hw hl hsent y hy
    obtain ⟨rfl, rfl⟩ := hlive i tag m hw hl hsent
    obtain rfl := mem_singleton.1 hy
    rw [Ghost.put, Ghost.give_self]
    rfl

theorem collect_fidInv (hnet : MatchInv s.net) (hopen : s.net.shared.closed = false)
    (hbind : ∀ i err f, o = .failed (some i) err → f ∈ s.net.shared.answered → f.id = i → s.net.shared.binds f = none) :
    ∃ g', FidInv (s.setThread t { op := k o.result }) g' := by
  have hclosed : ¬s.net.shared.closed = true := by simp [hopen]
  obtain ⟨_, _, _, _, call', hop, hcall', hmsg, hflush⟩ := hs.calls t _ j ht rfl
  obtain rfl := mem_unique hcall hcall'
  obtain ⟨⟨rfl, rfl, rfl⟩, -⟩ := by simpa using hop
  have hmem := mem_of_getElem? hcall
  have hpcOk := hnet.calls call hmem
  obtain ⟨hmay, hclunk⟩ := (hs.ops t _ ht).1
  have hid {i : Nat} (hw : s.Waits t i) := waits_id ht hcall hw
  have hsent {i : Nat} (hw : s.Waits t i) : ∃ tag, s.net.shared.sent[i]? = some ⟨tag, .other req⟩ := by
    rw [← hmsg]
    exact hpcOk.sent (hid hw)
  have hbinds {f : RFrame Reply} (hw : s.Waits t f.id) : s.net.shared.binds f = req.binds f.body := by
    obtain ⟨tag, hsent⟩ := hsent hw
    simp only [Shared.binds, hsent]
  rw [hpc] at hpcOk hid
  cases o with
  | ok i f =>
    obtain ⟨⟨hans, rfl⟩, -, hlive⟩ := hpcOk
    -- the answer to the T-message is the one that the thread gets
    have hf {f' : RFrame Reply} (hf' : f' ∈ s.net.shared.answered) (hw : s.Waits t f'.id) : f' = f :=
      inj_on_of_nodup_map hnet.net.once hf' hans (Option.some.inj (hid hw)).symm
    have hlive' {i : Nat} (hw : s.Waits t i) : ¬s.net.shared.Live i := Option.some.inj (hid hw) ▸ hlive
    have hwaits : s.Waits t f.id := ⟨_, j, call, ht, rfl, hcall, by rw [hpc]; rfl⟩
    have hput {x : Fid} {st₀ : Status} {st : Option Status} (hx : g.owner x = .thread t st₀)
        (hafter : (g.res t).after req (.ok f.body) = (g.res t).set x st)
        (hst : st = some .fresh → x ∉ s.net.shared.bound) (hb : ∀ y, req.binds f.body = some y → y = x) :
        ∃ g', FidInv (s.setThread t { op := k (.ok f.body) }) g' := by
      refine ⟨_, goOn_put hs ht hcall hpc st (by simp [Outcome.result]) hx hafter hst (fun f' hf' y hw hy => ?_)
        fun i _ _ hw hl => absurd hl (hlive' hw)⟩
      rw [hbinds hw, hf hf' hw] at hy
      exact hb y hy
    by_cases hreq : ∃ x, req = .clunk x
    · obtain ⟨x, rfl⟩ := hreq
      obtain ⟨tag, hsent⟩ := hsent hwaits
      have hunbound := hs.served.clunked t f.id tag x hwaits hsent ⟨f, hans, rfl⟩
      have hafter : ∃ st, (g.res t).after (.clunk x) (.ok f.body) = (g.res t).set x st := by
        cases f.body <;> exact ⟨_, rfl⟩
      obtain ⟨st, hafter⟩ := hafter
      exact hput (Ghost.res_some.1 hmay) hafter (fun _ => hunbound) (by simp [Request.binds])
    · have hafter : (g.res t).after req (.ok f.body) =
          (req.binds f.body).elim (g.res t) fun x => (g.res t).set x (some .own) := by
        cases req <;> first | rfl | exact absurd ⟨_, rfl⟩ hreq | (simp only [Res.after]; split <;> simp [*])
      cases hb : req.binds f.body with
      | some x =>
        rw [hb] at hafter
        exact hput (Ghost.res_some.1 (hmay.binds hb)) hafter (by simp) (by simp [hb])
      | none =>
        rw [hb] at hafter
        refine ⟨g, goOn_keep hs ht hcall hpc (by simp [Outcome.result]) hafter (fun f' hf' y hw hy => ?_) fun i => hlive'⟩
        rw [hbinds hw, hf hf' hw, hb] at hy
        cases hy
  | failed id err =>
    have hlive {i : Nat} (hw : s.Waits t i) : ¬s.net.shared.Live i :=
      ((hpcOk.1 i (hid hw)).2).resolve_left hclosed
    have hresult : (Outcome.failed id err : Outcome Reply).result ≠ .error .closed := by
      intro h
      exact hclosed (hpcOk.2 (Except.error.inj h))
    have hnone (f : RFrame Reply) (hf : f ∈ s.net.shared.answered) (y : Fid) (hw : s.Waits t f.id) :
        s.net.shared.binds f ≠ some y := by
      have hid : id = some f.id := hid hw
      rw [hbind f.id err f (by rw [hid]) hf rfl]
      simp
    by_cases hreq : ∃ x, req = .clunk x
    · obtain ⟨x, rfl⟩ := hreq
      exact ⟨_, goOn_put hs ht hcall hpc none hresult (Ghost.res_some.1 hmay) rfl (by simp)
        (fun f hf y hw hy => absurd hy (hnone f hf y hw)) fun i _ _ hw hl => absurd hl (hlive hw)⟩
    · refine ⟨g, goOn_keep hs ht hcall hpc hresult ?_ hnone fun i => hlive⟩
      cases req <;> first | rfl | exact absurd ⟨_, rfl⟩ hreq
  | abandoned i =>
    -- only a clunk is abandoned
    have habandons := hnet.abandons call hmem (by rw [hpc]; trivial)
    obtain ⟨x, rfl⟩ := hclunk (hflush ▸ habandons)
    refine ⟨_, goOn_put hs ht hcall hpc none (by simp [Outcome.result]) (Ghost.res_some.1 hmay) rfl (by simp)
      (fun f hf y hw hy => ?_) fun i' tag m hw _ hm => ⟨rfl, ?_⟩⟩
    · rw [hbinds hw] at hy
      simp [Request.binds] at hy
    · obtain ⟨tag', hsent⟩ := hsent hw
      have := mem_unique hm hsent
      simpa using (TFrame.mk.inj this).2

end Collect

section Send

theorem waits_call (hs : FidInv s g) (ht : s.threads[t]? = some { op := .cmd (.exchange req zeroCopy flushOnCancel) k })
    (call : Call Request Reply) (hid : call.pc.id = none) (t' i : Nat) :
    (({ s with net := { s.net with calls := s.net.calls ++ [call] } } : Session).setThread t
      { op := .cmd (.exchange req zeroCopy flushOnCancel) k, call := some s.net.calls.length }).Waits t' i ↔
      s.Waits t' i := by
  constructor
  · rintro ⟨th, j, call', hth, hj, hcall, hid'⟩
    rcases getElem?_set_cases hth with ⟨rfl, rfl⟩ | ⟨-, hth⟩
    · cases hj
      obtain rfl : call = call' := by simpa [Session.setThread] using hcall
      rw [hid] at hid'
      cases hid'
    · obtain ⟨-, -, -, -, call₀, -, hcall₀, -⟩ := hs.calls t' th j hth hj
      have hcall : (s.net.calls ++ [call])[j]? = some call' := hcall
      rw [getElem?_append_left (getElem?_lt hcall₀)] at hcall
      exact ⟨th, j, call', hth, hj, hcall, hid'⟩
  · intro hw
    have hne : t ≠ t' := by
      rintro rfl
      exact not_waits ht i hw
    obtain ⟨th, j, call', hth, hj, hcall, hid'⟩ := hw
    refine ⟨th, j, call', (getElem?_set_ne hne).trans hth, hj, ?_, hid'⟩
    exact (getElem?_append_left (getElem?_lt hcall)).trans hcall

theorem send_fidInv (hs : FidInv s g)
    (ht : s.threads[t]? = some { op := .cmd (.exchange req zeroCopy flushOnCancel) k })
    (hnet : Client.step maxInflight s.net (.call (.other req) zeroCopy flushOnCancel) = some net) :
    FidInv (({ s with net } : Session).setThread t
      { op := .cmd (.exchange req zeroCopy flushOnCancel) k, call := some s.net.calls.length }) g := by
  have hlt := getElem?_lt ht
  have hop := hs.ops t _ ht
  cases step_steps hnet with
  | call =>
    have hold {j : Nat} {call new : Call Request Reply} (h : s.net.calls[j]? = some call) :
        (s.net.calls ++ [new])[j]? = some call :=
      (getElem?_append_left (getElem?_lt h)).trans h
    refine { hs with ops := fun t' th h => ?_, idle := fun t' h => ?_, calls := fun t' th j h hj => ?_,
                     waited := fun j call h => ?_, served := ?_ }
    · rcases getElem?_set_cases h with ⟨rfl, rfl⟩ | ⟨-, h⟩
      · exact hop
      · exact hs.ops t' th h
    · simp only [Session.setThread, length_set] at h
      exact hs.idle t' h
    · rcases getElem?_set_cases h with ⟨rfl, rfl⟩ | ⟨-, h⟩
      · cases hj
        exact ⟨req, zeroCopy, flushOnCancel, k, _, rfl, getElem?_concat_length, rfl, rfl⟩
      · obtain ⟨req', z, fl, k', call, hop, hcall, hrest⟩ := hs.calls t' th j h hj
        exact ⟨req', z, fl, k', call, hop, hold hcall, hrest⟩
    · by_cases hj : j < s.net.calls.length
      · have hcall : s.net.calls[j]? = some call := (getElem?_append_left hj).symm.trans h
        refine (hs.waited j call hcall).imp_left fun ⟨t', th, hth, hj'⟩ => ⟨t', th, ?_, hj'⟩
        refine (getElem?_set_ne ?_).trans hth
        rintro rfl
        obtain rfl := mem_unique ht hth
        cases hj'
      · refine .inl ⟨t, _, getElem?_set_self hlt, ?_⟩
        have := getElem?_lt h
        simp only [Session.setThread, length_append, length_singleton] at this
        exact congrArg some (by omega)
    · have heq := funext fun t' => funext fun i => propext
        (waits_call hs ht ⟨.other req, zeroCopy, flushOnCancel, .acquiring⟩ rfl t' i)
      rw [heq]
      exact hs.served

end Send

end Threads

end NineP.Client
