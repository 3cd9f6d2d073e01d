import NineP.Server.RefRules

/-!
# Reference counts and bound fids

The reference count of a node is the number of fids bound to it and what the handlers owe.
-/

namespace NineP.Server.Handlers

open Codec Proto Program Transition List Option

variable {ν : Type} [DecidableEq ν]

/-! ## The balance -/

/-- How many fids of all connections are bound to the node. -/
def State.bound (s : State ν) (n : ν) : Nat := s.objs.countP fun o => o.key.isSome && o.node = n

def Obj.counts (o : Obj ν) (n : ν) : Int := if o.key.isSome && o.node = n then 1 else 0

/-- The reference counts, with what the handlers owe. -/
structure Balance (cfg : Config ν) (s : State ν) (rs : List (Owes ν)) : Prop where
  refs : ∀ n, cfg.implements n .inodeEmbedder = true → s.refs n = s.bound n + (rs.map (·.owed n)).sum
  gone : ∀ r ∈ rs, ∀ p ∈ r.gone, ∃ o, s.objs[p.1]? = some o ∧ o.key = none ∧ o.node = p.2
  closing : ∀ o ∈ s.objs, o.key.isSome = true → o.closing = false

/-- What a handler of connection `conn` knows if it runs alone. -/
structure Known (s : State ν) (conn : Nat) (r : Owes ν) : Prop where
  unref : ∀ n ∈ r.unref, s.refs n = 0
  found : ∀ p ∈ r.found, s.find (conn, p.1) = some p.2
  fresh : ∀ fs ∈ r.fresh, ∃ o, s.objs[fs]? = some o ∧ o.state = .allocated

section Balance

variable {cfg : Config ν} {s s' : State ν} {rs : List (Owes ν)} {r r' : Owes ν} {o o' : Obj ν}

theorem Balance.set (hb : Balance cfg s rs) (hr : rs[t]? = some r) (ho : s.objs[i]? = some o)
    (hkeep : o.key = none → o'.key = none ∧ o'.node = o.node) (hclosing : o'.key.isSome = true → o'.closing = false)
    (howed : ∀ n, cfg.implements n .inodeEmbedder = true → r'.owed n + o'.counts n = r.owed n + o.counts n)
    (hgone : ∀ p ∈ r'.gone, p ∈ r.gone ∨ p = (i, o'.node) ∧ o'.key = none) :
    Balance cfg { s with objs := s.objs.set i o' } (rs.set t r') where
  refs n hn := by
    have hobjs := countP_set_add (fun o : Obj ν => o.key.isSome && o.node = n) o' ho
    have hsum := sum_map_set (fun r : Owes ν => r.owed n) r' hr
    have hrefs := hb.refs n hn
    have hdebt := howed n hn
    simp only [State.bound, Obj.counts] at hrefs hdebt ⊢
    split at hobjs <;> split at hobjs <;> simp_all <;> omega
  gone q hq p hp := by
    -- what was gone stays as it was
    have hold (hp : ∃ o, s.objs[p.1]? = some o ∧ o.key = none ∧ o.node = p.2) :
        ∃ o, (s.objs.set i o')[p.1]? = some o ∧ o.key = none ∧ o.node = p.2 := by
      obtain ⟨o₁, ho₁, hkey, hnode⟩ := hp
      by_cases hi : i = p.1
      · obtain rfl : o = o₁ := Option.some.inj (ho.symm.trans (hi ▸ ho₁))
        obtain ⟨hkey', hnode'⟩ := hkeep hkey
        exact ⟨o', by rw [← hi, set_same ho _], hkey', hnode' ▸ hnode⟩
      · exact ⟨o₁, by rwa [getElem?_set_ne hi], hkey, hnode⟩
    rcases mem_or_eq_of_mem_set hq with hq | rfl
    · exact hold (hb.gone q hq p hp)
    · rcases hgone p hp with hp | ⟨rfl, hkey⟩
      · exact hold (hb.gone r (mem_of_getElem? hr) p hp)
      · exact ⟨o', set_same ho _, hkey, rfl⟩
  closing q hq hkey := by
    rcases mem_or_eq_of_mem_set hq with hq | rfl
    · exact hb.closing q hq hkey
    · exact hclosing hkey

theorem Balance.touch (hb : Balance cfg s rs) (hr : rs[t]? = some r) (ho : s.objs[i]? = some o) (hkey : o'.key = o.key)
    (hnode : o'.node = o.node) (hclosing : o.key.isSome = true → o'.closing = o.closing) (howed : r'.owed = r.owed)
    (hgone : r'.gone = r.gone) : Balance cfg { s with objs := s.objs.set i o' } (rs.set t r') := by
  refine hb.set hr ho (fun h => ⟨hkey.trans h, hnode⟩) (fun h => ?_) (fun n _ => ?_) fun p hp => .inl (hgone ▸ hp)
  · rw [hkey] at h
    rw [hclosing h]
    exact hb.closing o (mem_of_getElem? ho) h
  · simp only [Obj.counts, howed, hkey, hnode]

theorem Balance.count (hb : Balance cfg s rs) (hr : rs[t]? = some r) (hobjs : s'.objs = s.objs)
    (hrefs : ∀ n, cfg.implements n .inodeEmbedder = true → s'.refs n - r'.owed n = s.refs n - r.owed n)
    (hgone : r'.gone = r.gone) : Balance cfg s' (rs.set t r') where
  refs n hn := by
    have hsum := sum_map_set (fun r : Owes ν => r.owed n) r' hr
    have h := hb.refs n hn
    have h' := hrefs n hn
    simp only [State.bound, hobjs] at h ⊢
    omega
  gone q hq p hp := by
    rw [hobjs]
    rcases mem_or_eq_of_mem_set hq with hq | rfl
    · exact hb.gone q hq p hp
    · exact hb.gone r (mem_of_getElem? hr) p (hgone ▸ hp)
  closing q hq := hb.closing q (hobjs ▸ hq)

omit [DecidableEq ν] in
theorem Known.touch (hk : Known s conn r) (ho : s.objs[i]? = some o) (hkey : o'.key = o.key)
    (hunref : r'.unref = r.unref) (hfound : r'.found = r.found)
    (hfresh : r'.fresh = [] ∨ r'.fresh = r.fresh ∧ o'.state = o.state) :
    Known { s with objs := s.objs.set i o' } conn r' where
  unref := hunref ▸ hk.unref
  found p hp := (find_set ho hkey).trans (hk.found p (hfound ▸ hp))
  fresh fs hfs := by
    rcases hfresh with h | ⟨h, hstate⟩
    · simp [h] at hfs
    · obtain ⟨o₁, ho₁, hstate₁⟩ := hk.fresh fs (h ▸ hfs)
      by_cases hi : i = fs
      · subst hi
        obtain rfl := mem_unique ho ho₁
        exact ⟨o', set_same ho _, hstate ▸ hstate₁⟩
      · exact ⟨o₁, by rwa [getElem?_set_ne hi], hstate₁⟩

end Balance

/-! ## Steps that keep the table and the counts -/

section Same

/-- What the reference counts depend on. -/
def Obj.view {ν : Type} (o : Obj ν) : Option (Nat × Fid) × ν × Bool × FidStatus := (o.key, o.node, o.closing, o.state)

structure Same {ν : Type} (s s' : State ν) : Prop where
  refs : s'.refs = s.refs
  objs : s'.objs.map Obj.view = s.objs.map Obj.view

variable {s s' : State ν} {rs : List (Owes ν)} {r r' : Owes ν} {i : Nat} {o o' : Obj ν}

omit [DecidableEq ν] in
theorem same_set (ho : s.objs[i]? = some o) (h : o'.view = o.view) : Same s { s with objs := s.objs.set i o' } := by
  refine ⟨rfl, ext_getElem? fun j => ?_⟩
  simp only [getElem?_map, getElem?_set]
  by_cases hij : i = j
  · subst hij
    rw [if_pos rfl, if_pos (getElem?_lt ho), ho, map_some, map_some, h]
  · rw [if_neg hij]

omit [DecidableEq ν] in
theorem Same.get (h : Same s s') (ho : s.objs[i]? = some o) : ∃ o', s'.objs[i]? = some o' ∧ o'.view = o.view := by
  have hi : (s'.objs.map Obj.view)[i]? = some o.view := by rw [h.objs, getElem?_map, ho, map_some]
  rw [getElem?_map] at hi
  exact map_eq_some_iff.1 hi

omit [DecidableEq ν] in
theorem Same.symm (h : Same s s') : Same s' s := ⟨h.refs.symm, h.objs.symm⟩

theorem Same.bound (h : Same s s') (n : ν) : s'.bound n = s.bound n := by
  have hview (s : State ν) : s.bound n = (s.objs.map Obj.view).countP fun v => v.1.isSome && v.2.1 = n := by
    rw [countP_map]
    rfl
  rw [hview, h.objs, ← hview]

omit [DecidableEq ν] in
theorem Same.find (h : Same s s') (key : Nat × Fid) : s'.find key = s.find key := by
  have hview (s : State ν) : s.find key = (s.objs.map Obj.view).findIdx? (·.1 == some key) := by
    rw [findIdx?_map]
    rfl
  rw [hview, h.objs, ← hview]

theorem Balance.same (hb : Balance cfg s rs) (hs : Same s s') (hr : rs[t]? = some r) (howed : r'.owed = r.owed)
    (hgone : r'.gone = r.gone) : Balance cfg s' (rs.set t r') where
  refs n hn := by
    have hsum := sum_map_set (fun r : Owes ν => r.owed n) r' hr
    have h := hb.refs n hn
    simp only [howed] at hsum
    rw [hs.refs, hs.bound]
    omega
  gone q hq p hp := by
    have hold : ∃ o, s.objs[p.1]? = some o ∧ o.key = none ∧ o.node = p.2 := by
      rcases mem_or_eq_of_mem_set hq with hq | rfl
      · exact hb.gone q hq p hp
      · exact hb.gone r (mem_of_getElem? hr) p (hgone ▸ hp)
    obtain ⟨o, ho, hkey, hnode⟩ := hold
    obtain ⟨o', ho', hview⟩ := hs.get ho
    simp only [Obj.view, Prod.mk.injEq] at hview
    exact ⟨o', ho', hview.1.trans hkey, hview.2.1.trans hnode⟩
  closing o' ho' hkey := by
    obtain ⟨i, hi⟩ := mem_iff_getElem?.1 ho'
    obtain ⟨o, ho, hview⟩ := hs.symm.get hi
    simp only [Obj.view, Prod.mk.injEq] at hview
    rw [← hview.2.2.1]
    exact hb.closing o (mem_of_getElem? ho) (hview.1 ▸ hkey)

omit [DecidableEq ν] in
theorem Known.same (hk : Known s conn r) (hs : Same s s') : Known s' conn r where
  unref n hn := by
    rw [hs.refs]
    exact hk.unref n hn
  found p hp := (hs.find _).trans (hk.found p hp)
  fresh fs hfs := by
    obtain ⟨o, ho, hstate⟩ := hk.fresh fs hfs
    obtain ⟨o', ho', hview⟩ := hs.get ho
    simp only [Obj.view, Prod.mk.injEq] at hview
    exact ⟨o', ho', hview.2.2.2.trans hstate⟩

def Cmd.keepsView {ν : Type} : Cmd ν → Bool
  | .get _ | .currentState _ | .currentNode _ | .handle _ | .takeHandle _ | .beginIo _ | .endIo _ | .appendXattr _ _
  | .dirStale _ _ | .dirStore _ | .msize | .refs _ | .release _ | .close _ => true
  | _ => false

omit [DecidableEq ν] in
theorem view_appendXattr (o : Obj ν) (data : Bytes) : (o.appendXattr data).2.view = o.view := by
  obtain ⟨x, hx⟩ := appendXattr_eq o data
  rw [hx]
  rfl

omit [DecidableEq ν] in
theorem view_beginIo (o : Obj ν) : Obj.view { o with toFidState := o.beginIo.2 } = o.view := by
  unfold FidState.beginIo
  split <;> rfl

theorem exec_same {c : Cmd ν} {x : c.Res} (hc : c.keepsView = true) (h : s.exec cfg conn c = some (x, s')) :
    Same s s' := by
  have hset {α : Type} {i : Nat} {f : Obj ν → α × Obj ν} {x : α} {s' : State ν} (h : s.onObj i f = some (x, s'))
      (hf : ∀ o, (f o).2.view = o.view) : Same s s' := by
    obtain ⟨o, ho, -, rfl⟩ := onObj_some h
    exact same_set ho (hf o)
  cases c with
  | get | msize | refs | release | close =>
    cases h
    exact ⟨rfl, rfl⟩
  | currentState | currentNode | handle | takeHandle | endIo | dirStore => exact hset h fun _ => rfl
  | beginIo => exact hset h view_beginIo
  | appendXattr fs data => exact hset h fun o => view_appendXattr o data
  | dirStale fs offset =>
    refine hset h fun o => ?_
    split <;> rfl
  | _ => cases hc

end Same

/-! ## Commands -/

section Commands

variable {cfg : Config ν} {s : State ν} {rs : List (Owes ν)} {r : Owes ν} {t conn : Nat} {alone : Bool}

/-- A handler goes on with what a command leaves it. -/
def Goes (cfg : Config ν) (alone : Bool) (conn t : Nat) (rs : List (Owes ν)) (r : Owes ν) (c : Cmd ν) (x : c.Res)
    (s' : State ν) : Prop :=
  ∃ r', (refRules cfg alone).post c r x r' ∧ Balance cfg s' (rs.set t r') ∧ (alone = true → Known s' conn r')

variable {r' : Owes ν} {c : Cmd ν} {fs : Nat} {o o' : Obj ν} {n : ν} {order : List Nat}

omit [DecidableEq ν] in
theorem Known.tell (hk : Known s conn r) (hunref : ∀ n ∈ r'.unref, s.refs n = 0)
    (hfound : ∀ p ∈ r'.found, p ∈ r.found ∨ s.find (conn, p.1) = some p.2)
    (hfresh : ∀ fs ∈ r'.fresh, fs ∈ r.fresh ∨ ∃ o, s.objs[fs]? = some o ∧ o.state = .allocated) : Known s conn r' where
  unref := hunref
  found p hp := (hfound p hp).elim (hk.found p) id
  fresh fs hfs := (hfresh fs hfs).elim (hk.fresh fs) id

theorem goes_same (hb : Balance cfg s rs) (hr : rs[t]? = some r) (hs : Same s s') (r' : Owes ν)
    (hpost : (refRules cfg alone).post c r x r') (howed : r'.owed = r.owed) (hgone : r'.gone = r.gone)
    (hk : alone = true → Known s conn r') : Goes cfg alone conn t rs r c x s' :=
  ⟨r', hpost, hb.same hs hr howed hgone, fun halone => (hk halone).same hs⟩

theorem exec_plain_goes (hb : Balance cfg s rs) (hr : rs[t]? = some r) (hk : alone = true → Known s conn r)
    (hc : c.keepsView = true) (hpost : (refRules cfg alone).post c r x r) (h : s.exec cfg conn c = some (x, s')) :
    Goes cfg alone conn t rs r c x s' :=
  goes_same hb hr (exec_same hc h) r hpost rfl rfl hk

theorem Balance.rebind (hb : Balance cfg s rs) (hr : rs[t]? = some r) (ho : s.objs[fs]? = some o)
    (hsome : o.key.isSome = true) (hkey : o'.key = o.key) (hclosing : o'.closing = o.closing)
    (howed : r'.owed = ((r.owe cfg o'.node (-1)).owe cfg o.node 1).owed) (hgone : r'.gone = r.gone) :
    Balance cfg { s with objs := s.objs.set fs o' } (rs.set t r') := by
  refine hb.set hr ho (fun h => by rw [h] at hsome; cases hsome) (fun _ => ?_) (fun n hn => ?_) fun p hp => .inl (hgone ▸ hp)
  · rw [hclosing]
    exact hb.closing o (mem_of_getElem? ho) hsome
  · rw [howed, owe_owed hn, owe_owed hn]
    simp only [Obj.counts, hkey, hsome, Bool.true_and, decide_eq_true_eq, eq_comm (a := n)]
    split <;> split <;> omega

theorem Balance.doomed (hb : Balance cfg s rs) (hr : rs[t]? = some r) (hgone : (fs, n) ∈ r.gone)
    (ho : s.objs[fs]? = some o) (hkey : o'.key = o.key) (hnode : o'.node = o.node) :
    Balance cfg { s with objs := s.objs.set fs o' } (rs.set t r) := by
  refine hb.touch hr ho hkey hnode (fun hsome => ?_) rfl rfl
  obtain ⟨o₁, ho₁, hnone, -⟩ := hb.gone r (mem_of_getElem? hr) _ hgone
  obtain rfl := mem_unique ho ho₁
  rw [hnone] at hsome
  cases hsome

theorem Balance.refs_update {k : Int} (hb : Balance cfg s rs) (hr : rs[t]? = some r)
    (howed : r'.owed = (r.owe cfg n k).owed) (hgone : r'.gone = r.gone) :
    Balance cfg { s with refs := Function.update s.refs n (s.refs n + k) } (rs.set t r') := by
  refine hb.count hr rfl (fun m hm => ?_) hgone
  rw [howed, owe_owed hm]
  by_cases hmn : m = n
  · subst hmn
    simp only [Function.update_self, if_true]
    omega
  · simp [hmn]

/-- Whatever the command does, its handler goes on. -/
def Runs (cfg : Config ν) (s : State ν) (conn : Nat) (alone : Bool) (t : Nat) (rs : List (Owes ν)) (r : Owes ν) (c : Cmd ν) :
    Prop := ∀ x s', s.exec cfg conn c = some (x, s') → Goes cfg alone conn t rs r c x s'

section Runs

variable (hb : Balance cfg s rs) (hr : rs[t]? = some r) (hk : alone = true → Known s conn r)
include hb hr hk

variable {fid : Fid} {fs : Nat} {n node : ν} {handle : Handle}

theorem get_goes : Runs cfg s conn alone t rs r (.get fid) := by
  intro x s' h
  have hs : Same s s' := exec_same rfl h
  cases h
  cases hfind : s.find (conn, fid) with
  | none => exact goes_same hb hr hs r rfl rfl rfl hk
  | some fs =>
    refine goes_same hb hr hs _ rfl rfl rfl fun halone => (hk halone).tell (hk halone).unref ?_ fun _ => .inl
    intro p hp
    rcases mem_cons.1 hp with rfl | hp
    · exact .inr hfind
    · exact .inl hp

theorem currentState_goes : Runs cfg s conn alone t rs r (.currentState fs) := by
  intro x s' h
  have hs : Same s s' := exec_same rfl h
  obtain ⟨o, ho, rfl, -⟩ := onObj_some h
  by_cases hstate : o.state = .allocated
  · refine goes_same hb hr hs { r with fresh := fs :: r.fresh } (if_pos hstate).symm rfl rfl fun halone => ?_
    refine (hk halone).tell (hk halone).unref (fun _ => .inl) fun fs' hfs' => ?_
    rcases mem_cons.1 hfs' with rfl | hfs'
    · exact .inr ⟨o, ho, hstate⟩
    · exact .inl hfs'
  · exact goes_same hb hr hs r (if_neg hstate).symm rfl rfl hk

theorem currentNode_goes : Runs cfg s conn alone t rs r (.currentNode fs) := by
  intro x s' h
  have hs : Same s s' := exec_same rfl h
  obtain ⟨o, ho, rfl, -⟩ := onObj_some h
  refine goes_same hb hr hs r ⟨fun n hn => ?_, rfl⟩ rfl rfl hk
  obtain ⟨o', ho', -, rfl⟩ := hb.gone r (mem_of_getElem? hr) _ hn
  exact congrArg (·.node) (mem_unique ho ho')

theorem endIo_goes : Runs cfg s conn alone t rs r (.endIo fs) := by
  intro x s' h
  have hs : Same s s' := exec_same rfl h
  obtain ⟨o, ho, rfl, -⟩ := onObj_some h
  refine goes_same hb hr hs r ⟨fun halone fid hfound => ?_, rfl⟩ rfl rfl hk
  obtain ⟨o', ho', hkey⟩ := find_some ((hk halone).found _ hfound)
  obtain rfl := mem_unique ho ho'
  have hclosing := hb.closing o (mem_of_getElem? ho) (by simp [hkey])
  simp [FidState.endIo, hclosing]

theorem refs_goes : Runs cfg s conn alone t rs r (.refs n) := by
  intro x s' h
  have hs : Same s s' := exec_same rfl h
  cases h
  by_cases hzero : s.refs n = 0
  · refine goes_same hb hr hs { r with unref := n :: r.unref } (if_pos hzero).symm rfl rfl fun halone => ?_
    refine (hk halone).tell (fun m hm => ?_) (fun _ => .inl) fun _ => .inl
    rcases mem_cons.1 hm with rfl | hm
    · exact hzero
    · exact (hk halone).unref m hm
  · exact goes_same hb hr hs r (if_neg hzero).symm rfl rfl hk

theorem add_goes {state : FidStatus} : Runs cfg s conn alone t rs r (.add fid node state) := by
  intro x s' h
  simp only [State.exec] at h
  split at h
  · cases h
    exact goes_same hb hr ⟨rfl, rfl⟩ r rfl rfl rfl hk
  split at h
  · cases h
    exact goes_same hb hr ⟨rfl, rfl⟩ r rfl rfl rfl hk
  cases h
  have hold {i : Nat} {o : Obj ν} (ho : s.objs[i]? = some o) :
      (s.objs ++ [Obj.new (conn, fid) node state])[i]? = some o := by
    rwa [getElem?_append_left (getElem?_lt ho)]
  refine ⟨_, rfl, ⟨fun n hn => ?_, fun q hq p hp => ?_, fun o ho hkey => ?_⟩, fun halone => ⟨?_, ?_, ?_⟩⟩
  · have hsum := sum_map_set (fun r : Owes ν => r.owed n) (r.owe cfg node (-1)) hr
    have hrefs := hb.refs n hn
    simp only [owe_owed hn] at hsum
    simp only [State.bound, countP_append, countP_singleton] at hrefs ⊢
    by_cases hnode : n = node
    · subst hnode
      simp [Obj.new, FidState.bound] at hsum ⊢
      omega
    · simp [Obj.new, FidState.bound, hnode, Ne.symm hnode] at hsum ⊢
      omega
  · have hgone : ∃ o, s.objs[p.1]? = some o ∧ o.key = none ∧ o.node = p.2 := by
      rcases mem_or_eq_of_mem_set hq with hq | rfl
      · exact hb.gone q hq p hp
      · exact hb.gone r (mem_of_getElem? hr) p hp
    obtain ⟨o, ho, hkey⟩ := hgone
    exact ⟨o, hold ho, hkey⟩
  · rcases mem_append.1 ho with ho | ho
    · exact hb.closing o ho hkey
    · rw [mem_singleton.1 ho]
      rfl
  · exact (hk halone).unref
  · intro p hp
    have := (hk halone).found p hp
    simp only [State.find] at this ⊢
    rw [findIdx?_append, this]
    rfl
  · intro fs hfs
    obtain ⟨o, ho, hstate⟩ := (hk halone).fresh fs hfs
    exact ⟨o, hold ho, hstate⟩

theorem clunk_goes : Runs cfg s conn alone t rs r (.clunk fid) := by
  intro x s' h
  obtain ⟨-, rfl, rfl⟩ | ⟨fs, o, -, ho, hkey, rfl, rfl⟩ := find_cases h
  · exact goes_same hb hr ⟨rfl, rfl⟩ r rfl rfl rfl hk
  · refine ⟨_, ⟨o.node, rfl⟩, hb.set hr ho (fun h => by rw [hkey] at h; cases h) (by simp) (fun n hn => ?_) ?_, ?_⟩
    · simp only [Obj.counts, owe_owed hn, hkey]
      by_cases hnode : n = o.node
      · simp [hnode]
      · simp [hnode, Ne.symm hnode]
    · intro p hp
      rcases mem_cons.1 hp with rfl | hp
      · exact .inr ⟨rfl, rfl⟩
      · exact .inl hp
    · intro halone
      refine ⟨(hk halone).unref, by simp, fun fs' hfs' => ?_⟩
      obtain ⟨o', ho', hstate⟩ := (hk halone).fresh fs' hfs'
      by_cases hi : fs = fs'
      · subst hi
        obtain rfl := mem_unique ho ho'
        exact ⟨_, set_same ho _, hstate⟩
      · exact ⟨o', by rwa [getElem?_set_ne hi], hstate⟩

theorem update_goes : Runs cfg s conn alone t rs r (.update fid node) := by
  intro x s' h
  obtain ⟨-, rfl, rfl⟩ | ⟨fs, o, -, ho, hkey, rfl, rfl⟩ := find_cases h
  · exact goes_same hb hr ⟨rfl, rfl⟩ r rfl rfl rfl hk
  · exact ⟨_, rfl, hb.rebind hr ho (by simp [hkey]) rfl rfl rfl rfl,
      fun halone => (hk halone).touch ho rfl rfl rfl (.inr ⟨rfl, rfl⟩)⟩

theorem updateAndOpen_goes : Runs cfg s conn alone t rs r (.updateAndOpen fid node handle) := by
  intro x s' h
  obtain ⟨hfind, rfl, rfl⟩ | ⟨fs, o, hfind, ho, hkey, rfl, rfl⟩ := find_cases h
  · refine goes_same hb hr ⟨rfl, rfl⟩ r ⟨fun halone fs _ hfound => ?_, rfl⟩ rfl rfl hk
    have := (hk halone).found _ hfound
    rw [hfind] at this
    cases this
  · rcases ne_or_eq o.state .allocated with hstate | hstate
    · rw [if_pos hstate]
      refine goes_same hb hr (same_set ho rfl) r ⟨fun halone fs' hfs' hfound => ?_, rfl⟩ rfl rfl hk
      obtain rfl : fs = fs' := Option.some.inj (hfind.symm.trans ((hk halone).found _ hfound))
      obtain ⟨o', ho', hstate'⟩ := (hk halone).fresh fs hfs'
      obtain rfl := mem_unique ho ho'
      exact hstate hstate'
    · rw [if_neg (not_not.2 hstate)]
      exact ⟨_, rfl, hb.rebind hr ho (by simp [hkey]) rfl rfl rfl rfl,
        fun halone => (hk halone).touch ho rfl rfl rfl (.inl rfl)⟩

theorem markOpenedWithHandle_goes : Runs cfg s conn alone t rs r (.markOpenedWithHandle fid handle) := by
  intro x s' h
  have hforget (halone : alone = true) : Known s conn { r with fresh := [] } :=
    (hk halone).tell (hk halone).unref (fun _ => .inl) (by simp)
  obtain ⟨-, rfl, rfl⟩ | ⟨fs, o, -, ho, -, rfl, rfl⟩ := find_cases h
  · exact goes_same hb hr ⟨rfl, rfl⟩ _ rfl rfl rfl hforget
  · rcases ne_or_eq o.state .allocated with hstate | hstate
    · rw [if_pos hstate]
      exact goes_same hb hr (same_set ho rfl) _ rfl rfl rfl hforget
    · rw [if_neg (not_not.2 hstate)]
      exact ⟨_, rfl, hb.touch hr ho rfl rfl (fun _ => rfl) rfl rfl,
        fun halone => (hk halone).touch ho rfl rfl rfl (.inl rfl)⟩

theorem setXattrWrite_goes {name : Bytes} {size : UInt64} {flags : UInt32} {writer : Bool} :
    Runs cfg s conn alone t rs r (.setXattrWrite fs name size flags writer) := by
  intro x s' h
  obtain ⟨o, ho, -, rfl⟩ := onObj_some h
  exact ⟨_, rfl, hb.touch hr ho rfl rfl (fun _ => rfl) rfl rfl,
    fun halone => (hk halone).touch ho rfl rfl rfl (.inl rfl)⟩

theorem finishClunk_goes {closeNode : Bool} (hpre : (refRules cfg alone).pre (.finishClunk fs closeNode) r) :
    Runs cfg s conn alone t rs r (.finishClunk fs closeNode) := by
  intro x s' h
  obtain ⟨n, hgone⟩ := hpre
  obtain ⟨o, ho, rfl, rfl⟩ := onObj_some h
  exact ⟨r, rfl, hb.doomed hr hgone ho rfl rfl, fun halone => (hk halone).touch ho rfl rfl rfl (.inr ⟨rfl, rfl⟩)⟩

theorem takeXattr_goes (hpre : (refRules cfg alone).pre (.takeXattr fs) r) :
    Runs cfg s conn alone t rs r (.takeXattr fs) := by
  intro x s' h
  obtain ⟨n, hgone⟩ := hpre
  obtain ⟨o, ho, rfl, rfl⟩ := onObj_some h
  have hview : o.takeXattr.2.key = o.key ∧ o.takeXattr.2.node = o.node ∧ o.takeXattr.2.state = o.state := by
    unfold Obj.takeXattr
    split <;> exact ⟨rfl, rfl, rfl⟩
  exact ⟨r, rfl, hb.doomed hr hgone ho hview.1 hview.2.1,
    fun halone => (hk halone).touch ho hview.1 rfl rfl (.inr ⟨rfl, hview.2.2⟩)⟩

theorem incRef_goes : Runs cfg s conn alone t rs r (.incRef n) := by
  intro x s' h
  cases h
  refine ⟨_, rfl, hb.refs_update hr rfl rfl, fun halone => ⟨fun m hm => ?_, (hk halone).found, (hk halone).fresh⟩⟩
  obtain ⟨hm, hmn⟩ := mem_filter.1 hm
  simpa [Function.update_of_ne (of_decide_eq_true hmn)] using (hk halone).unref m hm

theorem decRef_goes : Runs cfg s conn alone t rs r (.decRef n) := by
  intro x s' h
  cases h
  refine ⟨_, rfl, hb.refs_update hr rfl rfl, fun halone => ⟨fun m hm => ?_, (hk halone).found, (hk halone).fresh⟩⟩
  have hother (hne : m ≠ n) (hm : m ∈ r.unref) : Function.update s.refs n (s.refs n - 1) m = 0 := by
    rw [Function.update_of_ne hne]
    exact (hk halone).unref m hm
  by_cases hlast : s.refs n - 1 = 0
  · rw [if_pos (by simpa using hlast)] at hm
    by_cases hmn : m = n
    · subst hmn
      simpa using hlast
    · exact hother hmn ((mem_cons.1 hm).resolve_left hmn)
  · rw [if_neg (by simpa using hlast)] at hm
    obtain ⟨hm, hmn⟩ := mem_filter.1 hm
    exact hother (of_decide_eq_true hmn) hm

end Runs

/-! ## All fids of a connection -/

def State.nodeOf (cfg : Config ν) (s : State ν) (fs : Nat) : ν := (s.objs[fs]?).elim cfg.root (·.node)

omit [DecidableEq ν] in
theorem nodeOf_some (ho : s.objs[fs]? = some o) : s.nodeOf cfg fs = o.node := by
  rw [State.nodeOf, ho, elim_some]

theorem count_nodes (horder : order.Perm (s.fidsOf conn)) (n : ν) :
    (order.map (s.nodeOf cfg)).count n = s.objs.countP fun o => o.isOf conn && o.node = n := by
  rw [← countP_range, List.count, countP_map, horder.countP_eq, State.fidsOf, countP_filter]
  refine countP_congr fun fs hfs => ?_
  have ho := getElem?_eq_getElem (mem_range.1 hfs)
  rw [ho]
  simp [nodeOf_some ho, and_comm]

theorem bound_removeAll (n : ν) :
    (s.removeAll conn).bound n + (s.objs.countP fun o => o.isOf conn && o.node = n) = s.bound n := by
  simp only [State.bound, State.removeAll]
  induction s.objs with
  | nil => rfl
  | cons o os ih =>
    simp only [map_cons, countP_cons]
    by_cases hof : o.isOf conn = true
    · have hsome : o.key.isSome = true := isSome_of_any hof
      simp only [hof, hsome, if_true, isSome_none, Bool.false_and, Bool.true_and, Bool.false_eq_true, if_false]
      omega
    · simp only [hof, Bool.false_and, Bool.false_eq_true, if_false]
      omega

theorem foldr_owe {nodes : List ν} : nodes.foldr (fun n r => r.owe cfg n 1) r =
    { r with owed := (nodes.foldr (fun n r => r.owe cfg n 1) r).owed } := by
  induction nodes with
  | nil => rfl
  | cons n nodes ih =>
    rw [foldr_cons, ih]
    rfl

theorem collect_goes (hb : Balance cfg s rs) (hr : rs[t]? = some r) (hk : alone = true → Known s conn r)
    (horder : order.Perm (s.fidsOf conn)) :
    Goes cfg alone conn t rs r .clunkAll order (s.removeAll conn) := by
  -- a fid state keeps its node and its status, and stays out of the table if it was out of it
  have hold {i : Nat} {o : Obj ν} (ho : s.objs[i]? = some o) : ∃ o', (s.removeAll conn).objs[i]? = some o' ∧
      o'.node = o.node ∧ o'.state = o.state ∧ (o.key = none ∨ o.isOf conn = true → o'.key = none) := by
    refine ⟨_, by rw [State.removeAll, getElem?_map, ho, map_some], ?_⟩
    split
    · exact ⟨rfl, rfl, fun _ => rfl⟩
    · exact ⟨rfl, rfl, fun h => h.resolve_right ‹_›⟩
  refine ⟨_, ⟨order.map (s.nodeOf cfg), by simp, rfl⟩, ⟨fun n hn => ?_, fun q hq p hp => ?_, fun o' ho' hkey => ?_⟩, ?_⟩
  · have hsum := sum_map_set (fun r : Owes ν => r.owed n)
      { (order.map (s.nodeOf cfg)).foldr (fun n r => r.owe cfg n 1) r with
        gone := order.zip (order.map (s.nodeOf cfg)) ++ r.gone, found := [] } hr
    have howed : ((order.map (s.nodeOf cfg)).foldr (fun n r => r.owe cfg n 1) r).owed n =
        r.owed n + (order.map (s.nodeOf cfg)).count n := owed_foldr hn
    have hcount : (order.map (s.nodeOf cfg)).count n = _ := count_nodes horder n
    have hbound : (s.removeAll conn).bound n + _ = s.bound n := bound_removeAll n
    have hrefs := hb.refs n hn
    simp only [State.removeAll] at hsum hbound ⊢
    omega
  · have hgone : ∃ o, s.objs[p.1]? = some o ∧ (o.key = none ∨ o.isOf conn = true) ∧ o.node = p.2 := by
      rcases mem_or_eq_of_mem_set hq with hq | rfl
      · obtain ⟨o, ho, hkey, hnode⟩ := hb.gone q hq p hp
        exact ⟨o, ho, .inl hkey, hnode⟩
      rcases mem_append.1 hp with hp | hp
      · rw [zip_eq_zipWith, zipWith_map_right, zipWith_self] at hp
        obtain ⟨fs, hfs, rfl⟩ := mem_map.1 hp
        obtain ⟨o, ho, hof⟩ := mem_fidsOf.1 (horder.mem_iff.1 hfs)
        exact ⟨o, ho, .inr hof, (nodeOf_some ho).symm⟩
      · obtain ⟨o, ho, hkey, hnode⟩ := hb.gone r (mem_of_getElem? hr) p hp
        exact ⟨o, ho, .inl hkey, hnode⟩
    obtain ⟨o, ho, hkey, hnode⟩ := hgone
    obtain ⟨o', ho', hnode', -, hkey'⟩ := hold ho
    exact ⟨o', ho', hkey' hkey, hnode'.trans hnode⟩
  · obtain ⟨o, ho, rfl⟩ := mem_map.1 ho'
    split at hkey
    · cases hkey
    · rw [if_neg ‹_›]
      exact hb.closing o ho hkey
  · intro halone
    rw [foldr_owe]
    refine ⟨(hk halone).unref, by simp, fun fs hfs => ?_⟩
    obtain ⟨o, ho, hstate⟩ := (hk halone).fresh fs hfs
    obtain ⟨o', ho', -, hstate', -⟩ := hold ho
    exact ⟨o', ho', hstate'.trans hstate⟩

theorem Does.balance (h : Does cfg s conn c x s') (hb : Balance cfg s rs) (hr : rs[t]? = some r)
    (hpre : (refRules cfg alone).pre c r) (hk : alone = true → Known s conn r) :
    Goes cfg alone conn t rs r c x s' := by
  cases h with
  | fail e hm => exact goes_same hb hr ⟨rfl, rfl⟩ r rfl rfl rfl hk
  | call v h =>
    have hs := accept_sameFids h
    exact goes_same hb hr ⟨hs.refs, by rw [hs.objs]⟩ r rfl rfl rfl hk
  | collect h => exact collect_goes hb hr hk h
  | exec h =>
    cases c with
    | get fid => exact get_goes hb hr hk _ _ h
    | add fid node state => exact add_goes hb hr hk _ _ h
    | clunk fid => exact clunk_goes hb hr hk _ _ h
    | update fid node => exact update_goes hb hr hk _ _ h
    | markOpenedWithHandle fid handle => exact markOpenedWithHandle_goes hb hr hk _ _ h
    | updateAndOpen fid node handle => exact updateAndOpen_goes hb hr hk _ _ h
    | currentState fs => exact currentState_goes hb hr hk _ _ h
    | currentNode fs => exact currentNode_goes hb hr hk _ _ h
    | endIo fs => exact endIo_goes hb hr hk _ _ h
    | finishClunk fs closeNode => exact finishClunk_goes hb hr hk hpre _ _ h
    | setXattrWrite fs name size flags writer => exact setXattrWrite_goes hb hr hk _ _ h
    | takeXattr fs => exact takeXattr_goes hb hr hk hpre _ _ h
    | incRef n => exact incRef_goes hb hr hk _ _ h
    | decRef n => exact decRef_goes hb hr hk _ _ h
    | refs n => exact refs_goes hb hr hk _ _ h
    | handle | takeHandle | beginIo | appendXattr | dirStale | dirStore | msize | release | close =>
      exact exec_plain_goes hb hr hk rfl rfl h
    | clunkAll | call => cases h

end Commands

/-! ## Runs -/

section Runs

variable {cfg : Config ν} {s s' : State ν} {rs : List (Owes ν)}

/-- At most one handler is at work, and it knows what it has seen. -/
def Sequential (s : State ν) (rs : List (Owes ν)) : Prop :=
  ∀ (t : Nat) (th : Thread ν) (c : Cmd ν) (k : c.Res → Op ν Answer) (r : Owes ν), s.threads[t]? = some th →
    th.op = .cmd c k → rs[t]? = some r →
    Known s th.conn r ∧ ∀ (t' : Nat) (th' : Thread ν), t' ≠ t → s.threads[t']? = some th' → ∃ a, th'.op = .pure a

omit [DecidableEq ν] in
theorem Sequential.set
    (hothers : ∀ t' th', t' ≠ t → s.threads[t']? = some th' → ∃ a, th'.op = .pure a)
    (hthreads : s'.threads = s.threads.set t th) (hk : ∀ r, rs'[t]? = some r → Known s' th.conn r) :
    Sequential s' rs' := by
  have hpure {t' : Nat} {th' : Thread ν} (hne : t' ≠ t) (ht' : s'.threads[t']? = some th') : ∃ a, th'.op = .pure a := by
    rw [hthreads, getElem?_set_ne (Ne.symm hne)] at ht'
    exact hothers t' th' hne ht'
  intro t' th' c k r ht' hop hr
  by_cases hne : t' = t
  · subst hne
    obtain rfl : th = th' := by
      rw [hthreads] at ht'
      rcases getElem?_set_cases ht' with ⟨-, h⟩ | ⟨hne, -⟩
      · exact h.symm
      · exact absurd rfl hne
    exact ⟨hk r hr, fun t₁ th₁ => hpure⟩
  · obtain ⟨a, ha⟩ := hpure hne ht'
    rw [hop] at ha
    cases ha

/-- One request at a time: it is read when the one before has been answered. -/
def OneByOne (s : State ν) (l : Label ν) : Prop := l.thread = none → s.Quiet

instance : DecidableRel (OneByOne (ν := ν)) := fun s l => inferInstanceAs (Decidable (l.thread = none → s.Quiet))

theorem refs_keeps (cfg : Config ν) (alone : Bool) :
    Keeps cfg (refRules cfg alone) (fun _ r => r.Even) (fun s l => alone = true → OneByOne s l)
      (fun s rs => s.threads.length = rs.length ∧ Balance cfg s rs ∧ (alone = true → Sequential s rs)) where
  start {s rs l conn op g} hinv hC hstart := by
    obtain ⟨hlen, hb, hseq⟩ := hinv
    have hpays : Pays cfg alone op := by
      cases hstart with
      | request _ req => exact pays_dispatch req
      | reVersion => exact pays_clunkAll true
      | cleanup _ drained => exact pays_clunkAll drained
    refine ⟨{}, hpays {} fun _ => rfl, by simp [hlen], ⟨fun n hn => ?_, fun r hr => ?_, hb.closing⟩, ?_⟩
    · have h := hb.refs n hn
      simp only [State.bound, map_append, sum_append] at h ⊢
      simpa using h
    · rcases mem_append.1 hr with hr | hr
      · exact hb.gone r hr
      · rw [mem_singleton.1 hr]
        simp
    · intro halone t th c k r ht hop hr
      -- all others have answered, so this is the new one
      have hquiet : ∀ th ∈ s.threads, ∃ a, th.op = .pure a := hC halone hstart.thread
      have hold {t' : Nat} (hlt : t' < s.threads.length) {th' : Thread ν}
          (ht' : (s.threads ++ [{ conn, op, ghost := g }])[t']? = some th') : ∃ a, th'.op = .pure a := by
        rw [getElem?_append_left hlt] at ht'
        exact hquiet th' (mem_of_getElem? ht')
      have hlast : t = s.threads.length := by
        rcases lt_trichotomy t s.threads.length with hlt | heq | hgt
        · obtain ⟨a, ha⟩ := hold hlt ht
          rw [hop] at ha
          cases ha
        · exact heq
        · rw [getElem?_eq_none (by simp; omega)] at ht
          cases ht
      refine ⟨?_, fun t' th' hne ht' => ?_⟩
      · obtain rfl : {} = r := by simpa [hlast, hlen] using hr
        exact ⟨by simp, by simp, by simp⟩
      · have hlt := getElem?_lt ht'
        simp only [length_append, length_singleton] at hlt
        exact hold (by omega) ht'
  negotiated hinv := by
    obtain ⟨hlen, hb, hseq⟩ := hinv
    exact ⟨hlen, ⟨hb.refs, hb.gone, hb.closing⟩, fun halone t th c k r ht hop hr =>
      ⟨⟨(hseq halone t th c k r ht hop hr).1.unref, (hseq halone t th c k r ht hop hr).1.found,
        (hseq halone t th c k r ht hop hr).1.fresh⟩, (hseq halone t th c k r ht hop hr).2⟩⟩
  enter {s rs t th n m k} hinv ht hop := by
    obtain ⟨hlen, hb, hseq⟩ := hinv
    refine ⟨by simpa [State.setThread] using hlen, ⟨hb.refs, hb.gone, hb.closing⟩, fun halone => ?_⟩
    have hlt : t < rs.length := hlen ▸ (getElem?_lt ht)
    have hothers := (hseq halone t th _ _ _ ht hop (getElem?_eq_getElem hlt)).2
    exact .set hothers rfl fun r hr => (hseq halone t th _ _ r ht hop hr).1.same ⟨rfl, rfl⟩
  does {s rs l t th c k x s' r} hinv hC hl ht hop hr hpre hdoes _ := by
    obtain ⟨hlen, hb, hseq⟩ := hinv
    obtain ⟨r', hpost, hb', hk'⟩ := hdoes.balance hb hr hpre fun halone => (hseq halone t th c k r ht hop hr).1
    refine ⟨r', hpost, by simpa [State.setThread, hdoes.threads] using hlen, ⟨hb'.refs, hb'.gone, hb'.closing⟩, ?_⟩
    intro halone
    refine .set (hseq halone t th c k r ht hop hr).2 (by rw [State.setThread, hdoes.threads]) fun r₁ hr₁ => ?_
    obtain rfl : r' = r₁ := by
      rw [set_same hr _] at hr₁
      exact Option.some.inj hr₁
    exact (hk' halone).same ⟨rfl, rfl⟩

theorem init_balance : Balance cfg init [] where
  refs _ _ := rfl
  gone := by simp
  closing := by simp [init]

omit [DecidableEq ν] in
theorem sum_owed_of_even (h : ∀ r ∈ rs, r.owed n = 0) : (rs.map (·.owed n)).sum = 0 := by
  induction rs with
  | nil => rfl
  | cons r rs ih =>
    rw [map_cons, sum_cons, h r mem_cons_self, ih fun q hq => h q (mem_cons_of_mem _ hq)]
    rfl

theorem Balance.unbound {t : Nat} {r : Owes ν} {n : ν} (hb : Balance cfg s rs)
    (hn : cfg.implements n .inodeEmbedder = true) (hr : rs[t]? = some r) (howed : 0 ≤ r.owed n) (hzero : s.refs n = 0)
    (hothers : ∀ t' r', t' ≠ t → rs[t']? = some r' → r'.owed n = 0) : s.bound n = 0 := by
  have hsum := sum_map_set (fun r : Owes ν => r.owed n) {} hr
  have hrest : ((rs.set t {}).map (·.owed n)).sum = 0 := by
    refine sum_owed_of_even fun r' hr' => ?_
    obtain ⟨t', ht'⟩ := mem_iff_getElem?.1 hr'
    rcases getElem?_set_cases ht' with ⟨-, rfl⟩ | ⟨hne, ht'⟩
    · rfl
    · exact hothers t' r' hne ht'
  have hrefs := hb.refs n hn
  have hnil : ({} : Owes ν).owed n = 0 := rfl
  omega

end Runs

/-! ## A run -/

/-- `Tattach`, `Twalk` to `a`, and `Tclunk` of the walked fid up to its `Close`. -/
def clunkLabels : List (Label Nat) :=
  [.request 0 (.attach ⟨0, noFid, [], [], 0⟩), .go 0, .go 0, .go 0, .finish 0 (.ok (.qid ⟨qtDir, 0, 0⟩)),
    .request 0 (.walk ⟨0, 1, [[97]]⟩), .go 1, .go 1, .go 1, .finish 1 (.ok (.qid ⟨qtDir, 0, 0⟩)),
    .go 1, .finish 1 (.ok (.node 1)), .go 1, .finish 1 (.ok (.qid ⟨0, 0, 1⟩)), .go 1, .go 1,
    .request 0 (.clunk ⟨1⟩), .go 2, .go 2, .go 2, .go 2, .go 2, .go 2, .go 2]

end NineP.Server.Handlers
