import NineP.Lib.SlashPath
import NineP.Server.Dispatch

/-!
# What a walk does

`handleWalk` of `server/dispatch.go` with the paths of the fids: the loop is `Dispatch.walkNames`, and `Lookup` answers
as it likes at every element.
-/

namespace NineP.Server.Walk

open Proto Codec RefCount Dispatch SlashPath List Option

/-! ## The handler -/

/-- The state that requests act on, with the `path` of every fid. -/
structure Session (ν η : Type) extends State ν η where
  paths : Fid → Bytes

section Handler

variable {ν η : Type} [DecidableEq ν]

def Session.addFid (cfg : Config ν) (s : Session ν η) (fid : Fid) (fs : FidState ν η) (path : Bytes) :
    Except Errno (Session ν η) :=
  (s.toState.addFid cfg fid fs).map fun st => ⟨st, Function.update s.paths fid path⟩

/-- The node that was reached is bound to no fid. -/
def Session.dispose (cfg : Config ν) (s : Session ν η) (walkStart current : ν) : Session ν η :=
  if current ≠ walkStart then { s with toState := s.toState.closeUnboundNode cfg current } else s

def handleWalk (cfg : Config ν) (s : Session ν η) (tw : Twalk) (lookup : Nat → Except Errno ν) : Reply × Session ν η :=
  match s.fids.get tw.fid with
  | none => (.error EBADF, s)
  | some src =>
    if tw.names = [] then
      if tw.fid = tw.newFid then (.rwalk [], s)
      else match s.addFid cfg tw.newFid (.bound src.node .allocated) (s.paths tw.fid) with
        | .error e => (.error e, s)
        | .ok s => (.rwalk [], s)
    else if tw.names.any (!validatePathElement ·) then (.error EINVAL, s)
    else
      let walkStart := src.node
      let (w, st) := walkNames cfg lookup walkStart tw.names walkStart [] s.toState
      let s := { s with toState := st }
      match w.qids, w.stop with
      | [], some e => (.error e, s)
      | qids, _ =>
        if qids.length = tw.names.length then
          let newPath := clean (s.paths tw.fid ++ 0x2f :: join tw.names)
          if tw.fid = tw.newFid then
            match s.fids.update tw.fid w.current with
            | some (prev, fids) =>
              let st := ({ s.toState with fids := fids }.record (.bind w.current)).incRefNode cfg w.current
              (.rwalk qids, ⟨(st.decRefNode cfg prev).2, Function.update s.paths tw.fid newPath⟩)
            | none => (.rwalk qids, s.dispose cfg walkStart w.current)
          else match s.addFid cfg tw.newFid (.bound w.current .allocated) newPath with
            | .error e => (.error e, s.dispose cfg walkStart w.current)
            | .ok s => (.rwalk qids, s)
        else (.rwalk qids, s.dispose cfg walkStart w.current)

end Handler

/-! ## The loop -/

section Loop

variable {ν η : Type} {cfg : Config ν} {lookup : Nat → Except Errno ν} {walkStart : ν}

def walkable (cfg : Config ν) (n : ν) : Bool := (cfg.qid n).type &&& qtDir ≠ 0 && cfg.implements n .nodeLookuper

/-- The nodes of the longest resolvable prefix; `i` counts the elements before. -/
def resolve (cfg : Config ν) (lookup : Nat → Except Errno ν) : Nat → ν → List Bytes → List ν
  | _, _, [] => []
  | i, current, _ :: names =>
    if walkable cfg current then
      match lookup i with
      | .error _ => []
      | .ok child => child :: resolve cfg lookup (i + 1) child names
    else []

theorem length_resolve_le (i : Nat) (current : ν) (names : List Bytes) :
    (resolve cfg lookup i current names).length ≤ names.length := by
  induction names generalizing i current with
  | nil => exact Nat.le_refl _
  | cons name names ih =>
    rw [resolve]
    split
    · split
      · exact Nat.zero_le _
      · exact Nat.succ_le_succ (ih _ _)
    · exact Nat.zero_le _

theorem closeUnboundNode_fids (s : State ν η) (n : ν) :
    (s.closeUnboundNode cfg n).fids = s.fids ∧ (s.closeUnboundNode cfg n).refs = s.refs := by
  unfold State.closeUnboundNode State.closeOrphanNode
  split
  · exact ⟨rfl, rfl⟩
  · split <;> exact ⟨rfl, rfl⟩

theorem closed_table (s : State ν η) (n : ν) (b : Prop) [Decidable b] :
    (if b then s.closeUnboundNode cfg n else s).fids = s.fids ∧
      (if b then s.closeUnboundNode cfg n else s).refs = s.refs := by
  split
  · exact closeUnboundNode_fids _ _
  · exact ⟨rfl, rfl⟩

variable [DecidableEq ν]

theorem walkNames_cons (cfg : Config ν) (lookup : Nat → Except Errno ν) (walkStart : ν) (name : Bytes)
    (names : List Bytes) (current : ν) (qids : List QID) (s : State ν η) :
    (resolve cfg lookup qids.length current (name :: names) = [] ∧
      ∃ e, walkNames cfg lookup walkStart (name :: names) current qids s = (⟨current, qids, some e⟩, s)) ∨
    ∃ child, resolve cfg lookup qids.length current (name :: names) =
        child :: resolve cfg lookup (qids ++ [cfg.qid child]).length child names ∧
      walkNames cfg lookup walkStart (name :: names) current qids s =
        walkNames cfg lookup walkStart names child (qids ++ [cfg.qid child])
          (if current ≠ walkStart ∧ current ≠ child then (s.record (.given child)).closeUnboundNode cfg current
            else s.record (.given child)) := by
  rw [resolve, walkNames]
  by_cases hdir : (cfg.qid current).type &&& qtDir = 0
  · exact .inl ⟨by simp [walkable, hdir], _, if_pos hdir⟩
  rw [if_neg hdir]
  cases hlook : cfg.implements current .nodeLookuper with
  | false => exact .inl ⟨by simp [walkable, hlook], _, rfl⟩
  | true =>
    rw [if_pos (by simp [walkable, hdir, hlook])]
    cases lookup qids.length with
    | error e => exact .inl ⟨rfl, e, rfl⟩
    | ok child => exact .inr ⟨child, by simp, rfl⟩

theorem walkNames_spec (cfg : Config ν) (lookup : Nat → Except Errno ν) (walkStart : ν) (names : List Bytes) (current : ν) (qids : List QID) (s : State ν η) :
    let reached := resolve cfg lookup qids.length current names
    let r := walkNames cfg lookup walkStart names current qids s
    r.1.qids = qids ++ reached.map cfg.qid ∧ r.1.current = reached.getLastD current ∧
      (r.1.stop = none ↔ reached.length = names.length) ∧ r.2.fids = s.fids ∧ r.2.refs = s.refs ∧
      (reached = [] → r.2 = s) := by
  induction names generalizing current qids s with
  | nil => simp [resolve, walkNames]
  | cons name names ih =>
    obtain ⟨hnil, e, hw⟩ | ⟨child, hcons, hw⟩ := walkNames_cons cfg lookup walkStart name names current qids s
    · simp [hnil, hw]
    · rw [hcons, hw]
      obtain ⟨hqids, hcur, hstop, hfids, hrefs, -⟩ := ih child (qids ++ [cfg.qid child])
        (if current ≠ walkStart ∧ current ≠ child then (s.record (.given child)).closeUnboundNode cfg current
          else s.record (.given child))
      exact ⟨by rw [hqids]; simp, by rw [hcur, getLastD_cons], by rw [hstop]; simp,
        hfids.trans (closed_table _ _ _).1, hrefs.trans (closed_table _ _ _).2, nofun⟩

/-- How often a node was closed. -/
def closes (s : State ν η) (n : ν) : Nat := s.log.count (.close n)

theorem closes_closeUnboundNode {s : State ν η} {m : ν} (hclose : cfg.implements m .nodeCloser = true)
    (hrefs : cfg.implements m .inodeEmbedder = true → s.refs m = 0) (n : ν) :
    closes (s.closeUnboundNode cfg m) n = closes s n + if n = m then 1 else 0 := by
  have hnot : ¬ (cfg.implements m .inodeEmbedder = true ∧ s.refs m ≠ 0) := fun h => h.2 (hrefs h.1)
  rw [State.closeUnboundNode, if_neg hnot, State.closeOrphanNode, if_pos hclose]
  by_cases hn : n = m
  · subst hn
    simp [closes, State.record]
  · have hne : m ≠ n := Ne.symm hn
    simp [closes, State.record, hn, hne]

/-- What the nodes of a walk are when `Lookup` makes new ones: different from each other and from the node where the
walk begins, not in use, and to be closed. -/
structure Fresh (cfg : Config ν) (s : State ν η) (walkStart : ν) (reached : List ν) : Prop where
  nodup : (walkStart :: reached).Nodup
  unused : ∀ fs ∈ s.fids.states, fs.node ∉ reached
  closer : ∀ n ∈ reached, cfg.implements n .nodeCloser = true
  refs : ∀ n ∈ reached, cfg.implements n .inodeEmbedder = true → s.refs n = 0

theorem walkNames_closes (names : List Bytes) (current : ν) (qids : List QID) (s : State ν η)
    (hstart : walkStart ∉ resolve cfg lookup qids.length current names)
    (hnodup : (current :: resolve cfg lookup qids.length current names).Nodup)
    (hok : ∀ n ∈ current :: resolve cfg lookup qids.length current names, n ≠ walkStart →
      cfg.implements n .nodeCloser = true ∧ (cfg.implements n .inodeEmbedder = true → s.refs n = 0)) (n : ν) :
    closes (walkNames cfg lookup walkStart names current qids s).2 n = closes s n +
      if n ∈ (current :: resolve cfg lookup qids.length current names).dropLast ∧ n ≠ walkStart then 1 else 0 := by
  induction names generalizing current qids s with
  | nil => simp [resolve, walkNames]
  | cons name names ih =>
    obtain ⟨hnil, e, hw⟩ | ⟨child, hcons, hw⟩ := walkNames_cons cfg lookup walkStart name names current qids s
    · simp [hnil, hw]
    · rw [hcons] at hstart hnodup hok ⊢
      rw [hw]
      have hne : current ≠ child := fun h => (nodup_cons.1 hnodup).1 (h ▸ mem_cons_self)
      rw [ih child _ _ (fun h => hstart (mem_cons_of_mem _ h)) (nodup_cons.1 hnodup).2 fun m hm hms => by
        rw [(closed_table _ _ _).2]
        exact hok m (mem_cons_of_mem _ hm) hms]
      have hgiven : closes (s.record (.given child)) n = closes s n := by simp [closes, State.record]
      rw [dropLast_cons_of_ne_nil (cons_ne_nil _ _)]
      by_cases hcur : current = walkStart
      · subst hcur
        rw [if_neg (by simp), hgiven]
        by_cases hn : n = current <;> simp [hn]
      · obtain ⟨hclose, hzero⟩ := hok current mem_cons_self hcur
        rw [if_pos ⟨hcur, hne⟩, closes_closeUnboundNode (s := s.record (.given child)) hclose hzero, hgiven]
        by_cases hn : n = current
        · subst hn
          have hnot : n ∉ (child :: resolve cfg lookup (qids ++ [cfg.qid child]).length child names).dropLast :=
            fun h => (nodup_cons.1 hnodup).1 (dropLast_subset _ h)
          rw [if_pos rfl, if_neg fun h => hnot h.1, if_pos ⟨mem_cons_self, hcur⟩]
        · simp [hn]

end Loop

/-! ## The outcomes -/

section Outcomes

variable {ν η : Type} [DecidableEq ν] {cfg : Config ν} {s : Session ν η} {tw : Twalk} {lookup : Nat → Except Errno ν}

/-- The nodes that the walk obtains from `src` on. -/
def obtained (cfg : Config ν) (tw : Twalk) (lookup : Nat → Except Errno ν) (src : FidState ν η) : List ν :=
  if tw.names.any (!validatePathElement ·) then [] else resolve cfg lookup 0 src.node tw.names

/-- The node at the end of the walk. -/
def target (cfg : Config ν) (tw : Twalk) (lookup : Nat → Except Errno ν) (src : FidState ν η) : ν :=
  (obtained cfg tw lookup src).getLastD src.node

def extend (path : Bytes) (names : List Bytes) : Bytes :=
  if names = [] then path else clean (path ++ 0x2f :: join names)

/-- A fid number that `add` refuses. -/
def Full (cfg : Config ν) (s : State ν η) (fid : Fid) : Prop :=
  (0 < cfg.maxFids ∧ cfg.maxFids ≤ s.fids.states.length) ∨ (s.fids.get fid).isSome = true

def walked (cfg : Config ν) (s : Session ν η) (tw : Twalk) (lookup : Nat → Except Errno ν) (src : FidState ν η) :
    Session ν η :=
  { s with toState := (walkNames cfg lookup src.node tw.names src.node [] s.toState).2 }

/-- The ways in which a walk ends. -/
inductive Walks (cfg : Config ν) (s : Session ν η) (tw : Twalk) (lookup : Nat → Except Errno ν) :
    Reply → Session ν η → Prop
  | unbound (h : s.fids.get tw.fid = none) : Walks cfg s tw lookup (.error EBADF) s
  | here {src : FidState ν η} (h : s.fids.get tw.fid = some src) (hnames : tw.names = []) (hfid : tw.fid = tw.newFid) :
    Walks cfg s tw lookup (.rwalk []) s
  | first {src : FidState ν η} {e : Errno} (h : s.fids.get tw.fid = some src) (hnames : tw.names ≠ [])
    (hnil : obtained cfg tw lookup src = []) : Walks cfg s tw lookup (.error e) s
  | part {src : FidState ν η} (h : s.fids.get tw.fid = some src) (hcons : obtained cfg tw lookup src ≠ [])
    (hlt : (obtained cfg tw lookup src).length < tw.names.length) :
    Walks cfg s tw lookup (.rwalk ((obtained cfg tw lookup src).map cfg.qid))
      ((walked cfg s tw lookup src).dispose cfg src.node (target cfg tw lookup src))
  | inPlace {src : FidState ν η} {s' : Session ν η} (h : s.fids.get tw.fid = some src) (hnames : tw.names ≠ [])
    (hlen : (obtained cfg tw lookup src).length = tw.names.length) (hfid : tw.fid = tw.newFid)
    (hfids : s'.fids = s.fids.insert tw.newFid { src with node := target cfg tw lookup src })
    (hpaths : s'.paths = Function.update s.paths tw.newFid (extend (s.paths tw.fid) tw.names)) :
    Walks cfg s tw lookup (.rwalk ((obtained cfg tw lookup src).map cfg.qid)) s'
  | full {src : FidState ν η} {e : Errno} (h : s.fids.get tw.fid = some src)
    (hlen : (obtained cfg tw lookup src).length = tw.names.length) (hfid : tw.fid ≠ tw.newFid)
    (hfull : Full cfg s.toState tw.newFid) :
    Walks cfg s tw lookup (.error e) ((walked cfg s tw lookup src).dispose cfg src.node (target cfg tw lookup src))
  | bound {src : FidState ν η} {s' : Session ν η} (h : s.fids.get tw.fid = some src)
    (hlen : (obtained cfg tw lookup src).length = tw.names.length) (hfid : tw.fid ≠ tw.newFid)
    (hfull : ¬ Full cfg s.toState tw.newFid)
    (hfids : s'.fids = s.fids.insert tw.newFid (.bound (target cfg tw lookup src) .allocated))
    (hpaths : s'.paths = Function.update s.paths tw.newFid (extend (s.paths tw.fid) tw.names))
    (hlog : s'.log = .bind (target cfg tw lookup src) :: (walked cfg s tw lookup src).log) :
    Walks cfg s tw lookup (.rwalk ((obtained cfg tw lookup src).map cfg.qid)) s'

theorem incRefNode_eq (s : State ν η) (n : ν) :
    (s.incRefNode cfg n).fids = s.fids ∧ (s.incRefNode cfg n).log = s.log := by
  unfold State.incRefNode
  split <;> exact ⟨rfl, rfl⟩

theorem decRefNode_fids (s : State ν η) (n : ν) : (s.decRefNode cfg n).2.fids = s.fids := by
  unfold State.decRefNode
  split <;> rfl

theorem addFid_cases (cfg : Config ν) (s : Session ν η) (fid : Fid) (fs : FidState ν η) (path : Bytes) :
    (Full cfg s.toState fid ∧ ∃ e, s.addFid cfg fid fs path = .error e) ∨
    (¬ Full cfg s.toState fid ∧ ∃ s' : Session ν η, s.addFid cfg fid fs path = .ok s' ∧
      s'.fids = s.fids.insert fid fs ∧ s'.paths = Function.update s.paths fid path ∧
      s'.log = .bind fs.node :: s.log) := by
  unfold Session.addFid State.addFid FidTable.add
  by_cases hlimit : 0 < cfg.maxFids ∧ cfg.maxFids ≤ s.fids.states.length
  · rw [if_pos hlimit]
    exact .inl ⟨.inl hlimit, _, rfl⟩
  rw [if_neg hlimit]
  by_cases huse : (s.fids.get fid).isSome = true
  · rw [if_pos huse]
    exact .inl ⟨.inr huse, _, rfl⟩
  · rw [if_neg huse]
    exact .inr ⟨not_or.2 ⟨hlimit, huse⟩, _, rfl, (incRefNode_eq _ _).1, rfl, (incRefNode_eq _ _).2⟩

theorem dispose_start (s : Session ν η) (n : ν) : s.dispose cfg n n = s := if_neg (not_not.2 rfl)

theorem handleWalk_walks {r : Reply} {s' : Session ν η} (hr : handleWalk cfg s tw lookup = (r, s')) :
    Walks cfg s tw lookup r s' := by
  unfold handleWalk at hr
  cases hsrc : s.fids.get tw.fid with
  | none =>
    rw [hsrc] at hr
    cases hr
    exact .unbound hsrc
  | some src =>
    simp only [hsrc] at hr
    by_cases hnames : tw.names = []
    · have hobt : obtained cfg tw lookup src = [] := by simp [obtained, hnames, resolve]
      have hlen : (obtained cfg tw lookup src).length = tw.names.length := by rw [hobt, hnames]; rfl
      have htarget : target cfg tw lookup src = src.node := by rw [target, hobt]; rfl
      have hwalked : walked cfg s tw lookup src = s := by rw [walked, hnames]; rfl
      rw [if_pos hnames] at hr
      by_cases hfid : tw.fid = tw.newFid
      · rw [if_pos hfid] at hr
        cases hr
        exact .here hsrc hnames hfid
      rw [if_neg hfid] at hr
      obtain ⟨hfull, e, hadd⟩ | ⟨hfull, s₂, hadd, hfids, hpaths, hlog⟩ :=
        addFid_cases cfg s tw.newFid (.bound src.node .allocated) (s.paths tw.fid)
      · rw [hadd] at hr
        cases hr
        have h := @Walks.full _ _ _ cfg s tw lookup _ e hsrc hlen hfid hfull
        rwa [hwalked, htarget, dispose_start] at h
      · rw [hadd] at hr
        cases hr
        have h := Walks.bound hsrc hlen hfid hfull (by rw [htarget, hfids])
          (by rw [extend, if_pos hnames, hpaths]) (by rw [hwalked, htarget, hlog]; rfl)
        rwa [hobt] at h
    rw [if_neg hnames] at hr
    by_cases hvalid : tw.names.any (!validatePathElement ·) = true
    · rw [if_pos hvalid] at hr
      cases hr
      exact .first hsrc hnames (if_pos hvalid)
    rw [if_neg hvalid] at hr
    have hobt : resolve cfg lookup 0 src.node tw.names = obtained cfg tw lookup src := (if_neg hvalid).symm
    have hle := @length_resolve_le _ cfg lookup 0 src.node tw.names
    obtain ⟨hqids, hcur, hstop, hfids, -, hsame⟩ := walkNames_spec cfg lookup src.node tw.names src.node [] s.toState
    have hwalked : walked cfg s tw lookup src =
      { s with toState := (walkNames cfg lookup src.node tw.names src.node [] s.toState).2 } := rfl
    revert hqids hcur hstop hfids hsame hwalked
    generalize walkNames cfg lookup src.node tw.names src.node [] s.toState = x at hr ⊢
    obtain ⟨⟨current, qids, stop⟩, st⟩ := x
    rw [length_nil, hobt] at *
    intro hqids hcur hstop hfids hsame hwalked
    obtain rfl : qids = (obtained cfg tw lookup src).map cfg.qid := hqids
    obtain rfl : current = target cfg tw lookup src := hcur
    dsimp only at hr hstop hfids hsame hwalked
    split at hr
    · -- the first name failed: the loop has done nothing
      have hnil := map_eq_nil_iff.1 ‹(obtained cfg tw lookup src).map cfg.qid = []›
      cases hr
      rw [hsame hnil]
      exact .first hsrc hnames hnil
    rename_i hne
    rw [← hwalked, length_map] at hr
    by_cases hlen : (obtained cfg tw lookup src).length = tw.names.length
    · rw [if_pos hlen] at hr
      have hext : clean (s.paths tw.fid ++ 0x2f :: join tw.names) = extend (s.paths tw.fid) tw.names :=
        (if_neg hnames).symm
      have hwfids : (walked cfg s tw lookup src).fids = s.fids := hwalked ▸ hfids
      rw [hext] at hr
      by_cases hfid : tw.fid = tw.newFid
      · rw [if_pos hfid, hfids, FidTable.update, hsrc] at hr
        cases hr
        refine .inPlace hsrc hnames hlen hfid ?_ (by rw [hfid])
        rw [← hfid]
        exact (decRefNode_fids _ _).trans (incRefNode_eq _ _).1
      · rw [if_neg hfid] at hr
        obtain ⟨hfull, e, hadd⟩ | ⟨hfull, s₂, hadd, hfids₂, hpaths, hlog⟩ := addFid_cases cfg (walked cfg s tw lookup src)
          tw.newFid (.bound (target cfg tw lookup src) .allocated) (extend (s.paths tw.fid) tw.names)
        all_goals
          rw [hadd] at hr
          cases hr
          rw [Full, hwfids] at hfull
        · exact .full hsrc hlen hfid hfull
        · exact .bound hsrc hlen hfid hfull (hwfids ▸ hfids₂) hpaths hlog
    · rw [if_neg hlen] at hr
      cases hr
      refine .part hsrc (fun hnil => ?_) (by omega)
      obtain ⟨e, he⟩ := ne_none_iff_exists'.1 fun h => hlen (hstop.1 h)
      exact hne e (by rw [hnil, map_nil]) he

/-- When a walk is answered with an error. -/
def Refused (cfg : Config ν) (s : Session ν η) (tw : Twalk) (lookup : Nat → Except Errno ν) : Prop :=
  s.fids.get tw.fid = none ∨ (∃ name ∈ tw.names, validatePathElement name = false) ∨
  ∃ src, s.fids.get tw.fid = some src ∧
    ((tw.names ≠ [] ∧ obtained cfg tw lookup src = []) ∨
      ((obtained cfg tw lookup src).length = tw.names.length ∧ tw.fid ≠ tw.newFid ∧ Full cfg s.toState tw.newFid))

omit [DecidableEq ν] in
theorem obtained_invalid {name : Bytes} (hname : name ∈ tw.names) (hbad : validatePathElement name = false)
    (src : FidState ν η) : tw.names ≠ [] ∧ obtained cfg tw lookup src = [] :=
  ⟨ne_nil_of_mem hname, if_pos (List.any_eq_true.2 ⟨name, hname, by simp [hbad]⟩)⟩

omit [DecidableEq ν] in
theorem refused_iff {src : FidState ν η} (h : s.fids.get tw.fid = some src) :
    Refused cfg s tw lookup ↔ (tw.names ≠ [] ∧ obtained cfg tw lookup src = []) ∨
      ((obtained cfg tw lookup src).length = tw.names.length ∧ tw.fid ≠ tw.newFid ∧ Full cfg s.toState tw.newFid) := by
  constructor
  · rintro (hnone | ⟨name, hname, hbad⟩ | ⟨src', hsrc', hcase⟩)
    · rw [h] at hnone
      cases hnone
    · exact .inl (obtained_invalid hname hbad src)
    · obtain rfl := mem_unique h hsrc'
      exact hcase
  · exact fun hcase => .inr (.inr ⟨src, h, hcase⟩)

theorem dispose_table (cfg : Config ν) (s : Session ν η) (n m : ν) :
    (s.dispose cfg n m).fids = s.fids ∧ (s.dispose cfg n m).paths = s.paths := by
  unfold Session.dispose
  split
  · exact ⟨(closeUnboundNode_fids _ _).1, rfl⟩
  · exact ⟨rfl, rfl⟩

theorem walked_table (src : FidState ν η) :
    (walked cfg s tw lookup src).fids = s.fids ∧ (walked cfg s tw lookup src).paths = s.paths :=
  ⟨(walkNames_spec cfg lookup src.node tw.names src.node [] s.toState).2.2.2.1, rfl⟩

theorem closes_walked {src : FidState ν η} (hf : Fresh cfg s.toState src.node (obtained cfg tw lookup src))
    (hlen : obtained cfg tw lookup src ≠ [] ∨ tw.names = []) (n : ν) :
    closes (walked cfg s tw lookup src).toState n =
      closes s.toState n + if n ∈ (obtained cfg tw lookup src).dropLast then 1 else 0 := by
  have hobt : obtained cfg tw lookup src = resolve cfg lookup 0 src.node tw.names := by
    by_cases hvalid : tw.names.any (!validatePathElement ·) = true
    · rcases hlen with h | h
      · exact absurd (if_pos hvalid) h
      · simp [h] at hvalid
    · exact if_neg hvalid
  rw [hobt] at hf ⊢
  obtain ⟨hnot, hnodup⟩ := nodup_cons.1 hf.nodup
  refine (walkNames_closes tw.names src.node [] s.toState hnot hf.nodup (fun m hm hne => ?_) n).trans ?_
  · have hmem := mem_of_ne_of_mem hne hm
    exact ⟨hf.closer m hmem, hf.refs m hmem⟩
  · rw [length_nil]
    congr 1
    generalize resolve cfg lookup 0 src.node tw.names = reached at hnot
    cases reached with
    | nil => simp
    | cons a l =>
      rw [dropLast_cons_of_ne_nil (cons_ne_nil a l)]
      refine if_congr ⟨fun h => mem_of_ne_of_mem h.2 h.1, fun h => ⟨mem_cons_of_mem _ h, ?_⟩⟩ rfl rfl
      rintro rfl
      exact hnot (dropLast_subset _ h)

theorem closes_dispose {src : FidState ν η} (hf : Fresh cfg s.toState src.node (obtained cfg tw lookup src))
    (hlen : obtained cfg tw lookup src ≠ [] ∨ tw.names = []) (n : ν) :
    closes ((walked cfg s tw lookup src).dispose cfg src.node (target cfg tw lookup src)).toState n =
      closes s.toState n + if n ∈ obtained cfg tw lookup src then 1 else 0 := by
  have hw := closes_walked hf hlen n
  obtain hnil | ⟨init, last, hcons⟩ := eq_nil_or_concat (obtained cfg tw lookup src)
  · rw [target, hnil, getLastD_nil, dispose_start, hw, hnil, dropLast_nil]
  · have hlast : last ∈ obtained cfg tw lookup src := by simp [hcons]
    have hne : last ≠ src.node := fun h => (nodup_cons.1 hf.nodup).1 (h ▸ hlast)
    have hdis : last ∉ init := by
      have h := (nodup_cons.1 hf.nodup).2
      rw [hcons, concat_eq_append, nodup_append] at h
      exact fun hmem => h.2.2 last hmem last (mem_singleton_self last) rfl
    have hrefs : (walked cfg s tw lookup src).refs = s.refs :=
      (walkNames_spec cfg lookup src.node tw.names src.node [] s.toState).2.2.2.2.1
    have htarget : target cfg tw lookup src = last := by rw [target, hcons, concat_eq_append, getLastD_concat]
    rw [htarget, Session.dispose, if_pos hne]
    refine (closes_closeUnboundNode (hf.closer last hlast) (fun h => by rw [hrefs]; exact hf.refs last hlast h) n).trans ?_
    rw [hw, hcons, concat_eq_append, dropLast_concat, Nat.add_assoc]
    congr 1
    by_cases hn : n = last
    · subst hn
      simp [hdis]
    · simp [hn]

theorem disposed_table (src : FidState ν η) :
    ((walked cfg s tw lookup src).dispose cfg src.node (target cfg tw lookup src)).fids = s.fids ∧
    ((walked cfg s tw lookup src).dispose cfg src.node (target cfg tw lookup src)).paths = s.paths := by
  obtain ⟨hfids, hpaths⟩ := dispose_table cfg (walked cfg s tw lookup src) src.node (target cfg tw lookup src)
  exact ⟨hfids.trans (walked_table src).1, hpaths.trans (walked_table src).2⟩

/-- Every node of the walk that is not bound was closed once more, and no bound node was. -/
def Released (s s' : Session ν η) (reached : List ν) : Prop :=
  (∀ n ∈ reached, closes s'.toState n = closes s.toState n + if ∃ fs ∈ s'.fids.states, fs.node = n then 0 else 1) ∧
  ∀ fs ∈ s'.fids.states, closes s'.toState fs.node = closes s.toState fs.node

theorem disposed_fresh {src : FidState ν η} (hf : Fresh cfg s.toState src.node (obtained cfg tw lookup src))
    (hlen : obtained cfg tw lookup src ≠ [] ∨ tw.names = []) :
    Released s ((walked cfg s tw lookup src).dispose cfg src.node (target cfg tw lookup src))
      (obtained cfg tw lookup src) := by
  rw [Released, (disposed_table src).1]
  refine ⟨fun n hn => ?_, fun fs hfs => ?_⟩
  · rw [closes_dispose hf hlen, if_pos hn, if_neg]
    rintro ⟨fs, hfs, rfl⟩
    exact hf.unused fs hfs hn
  · rw [closes_dispose hf hlen, if_neg (hf.unused fs hfs), Nat.add_zero]

omit [DecidableEq ν] in
theorem nonempty_or_nil {src : FidState ν η} (hlen : (obtained cfg tw lookup src).length = tw.names.length) :
    obtained cfg tw lookup src ≠ [] ∨ tw.names = [] := by
  by_cases h : obtained cfg tw lookup src = []
  · rw [h] at hlen
    exact .inr (length_eq_zero_iff.1 hlen.symm)
  · exact .inl h

omit [DecidableEq ν] in
theorem obtained_split {src : FidState ν η} (hf : Fresh cfg s.toState src.node (obtained cfg tw lookup src)) :
    target cfg tw lookup src ∉ (obtained cfg tw lookup src).dropLast ∧
    ∀ n ∈ obtained cfg tw lookup src, n ∈ (obtained cfg tw lookup src).dropLast ∨ n = target cfg tw lookup src := by
  obtain hnil | ⟨init, last, hcons⟩ := eq_nil_or_concat (obtained cfg tw lookup src)
  · simp [hnil]
  · have h := (nodup_cons.1 hf.nodup).2
    rw [target, hcons, concat_eq_append, getLastD_concat, dropLast_concat]
    rw [hcons, concat_eq_append, nodup_append] at h
    refine ⟨fun hmem => h.2.2 last hmem last (mem_singleton_self last) rfl, fun n hn => ?_⟩
    simpa using hn

theorem bound_fresh {src : FidState ν η} {s' : Session ν η} (hf : Fresh cfg s.toState src.node (obtained cfg tw lookup src))
    (hlen : obtained cfg tw lookup src ≠ [] ∨ tw.names = [])
    (hstates : s'.fids.states = .bound (target cfg tw lookup src) .allocated :: s.fids.states)
    (hlog : s'.log = .bind (target cfg tw lookup src) :: (walked cfg s tw lookup src).log) :
    Released s s' (obtained cfg tw lookup src) := by
  obtain ⟨htarget, hsplit⟩ := obtained_split hf
  have hcloses (n : ν) : closes s'.toState n =
      closes s.toState n + if n ∈ (obtained cfg tw lookup src).dropLast then 1 else 0 := by
    have hne : Event.bind (target cfg tw lookup src) ≠ Event.close n := nofun
    rw [← closes_walked hf hlen n, closes, hlog, count_cons_of_ne hne]
    rfl
  rw [Released, hstates]
  refine ⟨fun n hn => ?_, fun fs hfs => ?_⟩
  · rw [hcloses]
    by_cases hlast : n = target cfg tw lookup src
    · rw [hlast, if_neg htarget, if_pos ⟨_, mem_cons_self, rfl⟩]
    · rw [if_pos ((hsplit n hn).resolve_right hlast), if_neg]
      rintro ⟨fs, hfs, rfl⟩
      rcases mem_cons.1 hfs with rfl | hfs
      · exact hlast rfl
      · exact hf.unused fs hfs hn
  · rw [hcloses, if_neg, Nat.add_zero]
    intro hmem
    rcases mem_cons.1 hfs with rfl | hfs
    · exact htarget hmem
    · exact hf.unused fs hfs (dropLast_subset _ hmem)

variable {r : Reply} {s' : Session ν η} {src : FidState ν η}

omit [DecidableEq ν] in
theorem inserted_table {fs : FidState ν η} {path : Bytes} (hfids : s'.fids = s.fids.insert tw.newFid fs)
    (hpaths : s'.paths = Function.update s.paths tw.newFid path) :
    s'.fids.get tw.newFid = some fs ∧ s'.paths tw.newFid = path ∧
      ∀ fid, fid ≠ tw.newFid → s'.fids.get fid = s.fids.get fid ∧ s'.paths fid = s.paths fid := by
  rw [hfids, hpaths]
  exact ⟨AList.lookup_insert _, Function.update_self _ _ _,
    fun fid hne => ⟨AList.lookup_insert_ne hne, Function.update_of_ne hne _ _⟩⟩

omit [DecidableEq ν] in
theorem states_bound {fs : FidState ν η} (hfull : ¬ Full cfg s.toState tw.newFid)
    (hfids : s'.fids = s.fids.insert tw.newFid fs) : s'.fids.states = fs :: s.fids.states := by
  rw [hfids]
  exact FidTable.states_insert_of_get_none (not_isSome_iff_eq_none.1 (not_or.1 hfull).2) fs

section

variable (hw : Walks cfg s tw lookup r s')
include hw

theorem Walks.error_iff : (∃ e, r = .error e) ↔ Refused cfg s tw lookup := by
  cases hw with
  | unbound h => exact ⟨fun _ => .inl h, fun _ => ⟨_, rfl⟩⟩
  | first h hnames hnil => exact ⟨fun _ => (refused_iff h).2 (.inl ⟨hnames, hnil⟩), fun _ => ⟨_, rfl⟩⟩
  | full h hlen hfid hfull => exact ⟨fun _ => (refused_iff h).2 (.inr ⟨hlen, hfid, hfull⟩), fun _ => ⟨_, rfl⟩⟩
  | here h hnames hfid =>
    refine ⟨nofun, fun hbad => ?_⟩
    obtain ⟨hne, -⟩ | ⟨-, hne, -⟩ := (refused_iff h).1 hbad
    · exact absurd hnames hne
    · exact absurd hfid hne
  | part h hcons hlt =>
    refine ⟨nofun, fun hbad => ?_⟩
    obtain ⟨-, hnil⟩ | ⟨hlen, -⟩ := (refused_iff h).1 hbad
    · exact absurd hnil hcons
    · omega
  | inPlace h hnames hlen hfid =>
    refine ⟨nofun, fun hbad => ?_⟩
    obtain ⟨-, hnil⟩ | ⟨-, hne, -⟩ := (refused_iff h).1 hbad
    · exact (nonempty_or_nil hlen).elim (absurd hnil) fun hnil => absurd hnil hnames
    · exact absurd hfid hne
  | bound h hlen hfid hfull =>
    refine ⟨nofun, fun hbad => ?_⟩
    obtain ⟨hne, hnil⟩ | ⟨-, -, hfull'⟩ := (refused_iff h).1 hbad
    · exact (nonempty_or_nil hlen).elim (absurd hnil) fun hnil => absurd hnil hne
    · exact absurd hfull' hfull

theorem Walks.answered (h : s.fids.get tw.fid = some src) (hok : ¬ Refused cfg s tw lookup) :
    r = .rwalk ((obtained cfg tw lookup src).map cfg.qid) ∧
    ((obtained cfg tw lookup src).length = tw.names.length →
      (∃ fs, s'.fids.get tw.newFid = some fs ∧ fs.node = target cfg tw lookup src ∧
        (tw.fid ≠ tw.newFid → fs = .bound (target cfg tw lookup src) .allocated)) ∧
      s'.paths tw.newFid = extend (s.paths tw.fid) tw.names ∧
      ∀ fid, fid ≠ tw.newFid → s'.fids.get fid = s.fids.get fid ∧ s'.paths fid = s.paths fid) := by
  have hiff := hw.error_iff
  cases hw with
  | unbound | first | full => exact absurd (hiff.1 ⟨_, rfl⟩) hok
  | here h' hnames hfid =>
    have hobt : obtained cfg tw lookup src = [] := by simp [obtained, hnames, resolve]
    refine ⟨by rw [hobt]; rfl, fun _ => ⟨⟨src, hfid ▸ h, by rw [target, hobt]; rfl, fun hne => absurd hfid hne⟩, ?_,
      fun _ _ => ⟨rfl, rfl⟩⟩⟩
    rw [extend, if_pos hnames, hfid]
  | part h' _ hlt =>
    obtain rfl := mem_unique h' h
    exact ⟨rfl, fun hlen => absurd hlen (Nat.ne_of_lt hlt)⟩
  | inPlace h' _ _ hfid hfids hpaths =>
    obtain rfl := mem_unique h' h
    obtain ⟨hget, hrest⟩ := inserted_table hfids hpaths
    exact ⟨rfl, fun _ => ⟨⟨_, hget, rfl, fun hne => absurd hfid hne⟩, hrest⟩⟩
  | bound h' _ _ _ hfids hpaths =>
    obtain rfl := mem_unique h' h
    obtain ⟨hget, hrest⟩ := inserted_table hfids hpaths
    exact ⟨rfl, fun _ => ⟨⟨_, hget, rfl, fun _ => rfl⟩, hrest⟩⟩

theorem Walks.unchanged (h : Refused cfg s tw lookup ∨ ∃ src, s.fids.get tw.fid = some src ∧
      (obtained cfg tw lookup src).length < tw.names.length) : s'.fids = s.fids ∧ s'.paths = s.paths := by
  have hiff := hw.error_iff
  cases hw with
  | unbound | here | first => exact ⟨rfl, rfl⟩
  | part | full => exact disposed_table _
  | inPlace h' _ hlen | bound h' hlen =>
    obtain hbad | ⟨src, hsrc, hlt⟩ := h
    · obtain ⟨_, he⟩ := hiff.2 hbad
      cases he
    · obtain rfl := mem_unique h' hsrc
      exact absurd hlen (Nat.ne_of_lt hlt)

theorem Walks.length_le (hpos : 0 < cfg.maxFids) (hle : s.fids.states.length ≤ cfg.maxFids) :
    s'.fids.states.length ≤ cfg.maxFids := by
  cases hw with
  | unbound | here | first => exact hle
  | part | full => rwa [(disposed_table _).1]
  | inPlace h _ _ hfid hfids =>
    rw [hfids, FidTable.states_insert, length_cons, ← hfid]
    rwa [(FidTable.states_perm h).length_eq, length_cons] at hle
  | bound _ _ _ hfull hfids =>
    have hlt : ¬ cfg.maxFids ≤ s.fids.states.length := fun hle => hfull (.inl ⟨hpos, hle⟩)
    rw [states_bound hfull hfids, length_cons]
    omega

theorem Walks.released (h : s.fids.get tw.fid = some src) (hne : tw.fid ≠ tw.newFid)
    (hf : Fresh cfg s.toState src.node (obtained cfg tw lookup src)) : Released s s' (obtained cfg tw lookup src) := by
  cases hw with
  | unbound h' =>
    rw [h'] at h
    cases h
  | here _ _ hfid | inPlace _ _ _ hfid => exact absurd hfid hne
  | first h' _ hnil =>
    obtain rfl := mem_unique h' h
    exact ⟨fun n hn => by simp [hnil] at hn, fun _ _ => rfl⟩
  | part h' hcons =>
    obtain rfl := mem_unique h' h
    exact disposed_fresh hf (.inl hcons)
  | full h' hlen =>
    obtain rfl := mem_unique h' h
    exact disposed_fresh hf (nonempty_or_nil hlen)
  | bound h' hlen _ hfull hfids _ hlog =>
    obtain rfl := mem_unique h' h
    exact bound_fresh hf (nonempty_or_nil hlen) (states_bound hfull hfids) hlog

end

end Outcomes

end NineP.Server.Walk
