import NineP.Server.Replies
import NineP.Server.Walk

/-!
# The path of a fid

A fid carries the path by which its node was reached: an attach and a walk set it, `Tstat` takes the name of the file
from it.  `updateAndOpen`, by which a create rebinds its fid to the new file, leaves the path of the directory.
-/

namespace NineP.Server.FidPath

open Proto Codec Dispatch SlashPath Transition Walk List Function
open Replies (pathBase statFromAttr statName)

section Handlers

variable {ν η : Type} [DecidableEq ν]

/-! ## The handlers -/

def handleAttach (cfg : Config ν) (s : Session ν η) (ta : Tattach) : Reply × Session ν η :=
  if ta.afid ≠ noFid then (.error ENOSYS, s)
  else match cfg.resolve ta.aname with
    | .error e => (.error e, s)
    | .ok node =>
      let s := { s with toState := s.record (.lent node) }
      let attachPath := if ta.aname ≠ [] then 0x2f :: ta.aname else [0x2f]
      match s.addFid cfg ta.fid (.bound node .allocated) attachPath with
      | .error e => (.error e, s)
      | .ok s => (.rattach (cfg.qid node), s)

def handleUStat (cfg : Config ν) (s : Session ν η) (m : P9u.Tstat) (getattr : Option (Except Errno P9l.Attr)) :
    Except Errno P9u.Stat :=
  match s.fids.get m.fid with
  | none => .error EBADF
  | some fs =>
    match getattr with
    | none => .error ENOSYS
    | some (.error e) => .error e
    | some (.ok attr) => .ok (statFromAttr (s.paths m.fid) (cfg.qid fs.node) attr)

/-- Only an attach and a walk set a path; a `Tstat` is one of the `other` requests. -/
def dispatch (cfg : Config ν) (s : Session ν η) : Request ν η → Reply × Session ν η
  | .attach m => handleAttach cfg s m
  | .walk m lookup => Walk.handleWalk cfg s m lookup
  | r =>
    let (reply, st) := Dispatch.dispatch cfg s.toState r
    (reply, { s with toState := st })

/-! ## The names that lead to a node -/

/-- The names through which the node of a fid was reached from the root. -/
structure Trail where
  names : List Bytes
  /-- One of them was created on the fid, or on the one that it was walked from. -/
  created : Bool

/-- What the replies tell about the nodes of the fids. -/
def follow (t : Fid → Trail) : Request ν η → Reply → Fid → Trail
  | .attach m, .rattach _ => Function.update t m.fid ⟨[], false⟩
  | .walk m _, .rwalk qids =>
    if qids.length = m.names.length then
      Function.update t m.newFid ⟨(t m.fid).names ++ m.names, (t m.fid).created⟩
    else t
  | .lcreate m _, .rlcreate _ _ => Function.update t m.fid ⟨(t m.fid).names ++ [m.name], true⟩
  | .uCreate m _, .rcreate _ _ => Function.update t m.fid ⟨(t m.fid).names ++ [m.name], true⟩
  | _, _ => t

structure Tracked (ν η : Type) extends Session ν η where
  trails : Fid → Trail

/-- A connection before its first request; the path of a fid that is not bound is never read. -/
def start (st : State ν η) : Tracked ν η := ⟨⟨st, fun _ => [0x2f]⟩, fun _ => ⟨[], false⟩⟩

/-- Removals are left out, and so are the requests that make nodes or xattr fids. -/
def step (cfg : Config ν) (s : Tracked ν η) : Request ν η → Option (Tracked ν η)
  | .remove _ _ | .mkdir _ _ | .symlink _ _ | .mknod _ _ | .xattrwalk _ _ | .xattrcreate _ _ => none
  | r =>
    let (reply, s') := dispatch cfg s.toSession r
    some ⟨s', follow s.trails r reply⟩

/-- An attach to the root of the server, a walk without `.` and `..`, or any other request. -/
def Direct : Request ν η → Prop
  | .attach m => m.aname = []
  | .walk m _ => [0x2e] ∉ m.names ∧ [0x2e, 0x2e] ∉ m.names
  | _ => True

end Handlers

/-! ## Paths and names -/

/-- The path has the names of the trail, or fewer names if one of them was created. -/
def Follows (path : Bytes) (t : Trail) : Prop :=
  (∀ e ∈ t.names, Plain e) ∧ ∃ es, path = 0x2f :: join es ∧ (∀ e ∈ es, Plain e) ∧
    if t.created then es.length < t.names.length else es = t.names

theorem pathBase_append {p e : Bytes} (he : e ≠ []) (hslash : 0x2f ∉ e) : pathBase (p ++ 0x2f :: e) = e := by
  have hrev : ∀ b ∈ e.reverse, b ≠ 0x2f := fun b hb h => hslash (h ▸ mem_reverse.1 hb)
  obtain ⟨b, l, hl⟩ := exists_cons_of_ne_nil (mt reverse_eq_nil_iff.1 he)
  have hdrop : (e.reverse ++ 0x2f :: p.reverse).dropWhile (· = 0x2f) = e.reverse ++ 0x2f :: p.reverse := by
    rw [hl, cons_append, dropWhile_cons_of_neg]
    simpa using hrev b (hl ▸ mem_cons_self)
  have htake : (e.reverse ++ 0x2f :: p.reverse).takeWhile (· ≠ 0x2f) = e.reverse := by
    rw [takeWhile_append_of_pos (by simpa using hrev), takeWhile_cons_of_neg (by simp), append_nil]
  have hp : (p ++ 0x2f :: e).reverse = e.reverse ++ 0x2f :: p.reverse := by simp
  rw [pathBase, if_neg (by simp), hp, hdrop]
  dsimp only
  rw [htake, reverse_reverse]
  exact if_neg he

theorem follows_root : Follows [0x2f] ⟨[], false⟩ := ⟨by simp, [], rfl, by simp, rfl⟩

section Follows

variable (h : Follows path t)
include h

theorem Follows.extend (hnames : ∀ e ∈ names, Plain e) :
    Follows (extend path names) ⟨t.names ++ names, t.created⟩ := by
  obtain ⟨hplain, es, rfl, hes, hlen⟩ := h
  refine ⟨forall_mem_append.2 ⟨hplain, hnames⟩, es ++ names, ?_, forall_mem_append.2 ⟨hes, hnames⟩, ?_⟩
  · unfold Walk.extend
    split
    · rename_i hnil
      rw [hnil, append_nil]
    · exact clean_append hes hnames
  · dsimp only
    split
    · rename_i hcreated
      rw [if_pos hcreated] at hlen
      simpa using hlen
    · rename_i hcreated
      rw [if_neg hcreated] at hlen
      rw [hlen]

theorem Follows.create (hname : Plain name) : Follows path ⟨t.names ++ [name], true⟩ := by
  obtain ⟨hplain, es, rfl, hes, hlen⟩ := h
  refine ⟨forall_mem_append.2 ⟨hplain, by simpa using hname⟩, es, rfl, hes, ?_⟩
  rw [if_pos rfl, length_append]
  split at hlen
  · exact Nat.lt_succ_of_lt hlen
  · exact hlen ▸ Nat.lt_succ_self _

theorem Follows.path_iff : path = 0x2f :: join t.names ↔ t.created = false := by
  obtain ⟨hplain, es, rfl, hes, hlen⟩ := h
  cases hcreated : t.created with
  | false =>
    rw [hcreated] at hlen
    exact ⟨fun _ => rfl, fun _ => by rw [if_neg (by simp)] at hlen; rw [hlen]⟩
  | true =>
    rw [hcreated, if_pos rfl] at hlen
    refine ⟨fun heq => ?_, nofun⟩
    have hjoin := congrArg components (List.cons.inj heq).2
    rw [components_join fun e he => (hes e he).toKept, components_join fun e he => (hplain e he).toKept] at hjoin
    exact absurd (congrArg List.length hjoin) (Nat.ne_of_lt hlen)

theorem Follows.name (ht : t.created = false) (qid : QID) (attr : P9l.Attr) :
    (statFromAttr path qid attr).name = t.names.getLastD [] := by
  obtain rfl := h.path_iff.2 ht
  rw [show (statFromAttr (0x2f :: join t.names) qid attr).name = statName (0x2f :: join t.names) from rfl]
  obtain hnil | ⟨es, e, hnames⟩ := eq_nil_or_concat t.names
  · rw [hnil]
    rfl
  · rw [concat_eq_append] at hnames
    have he := h.1 e (by simp [hnames])
    have hslash : e ≠ [0x2f] := fun hslash => he.noSlash (by simp [hslash])
    obtain ⟨p, hp⟩ := join_concat es e
    have hbase : pathBase (p ++ 0x2f :: e) = e := pathBase_append he.nonempty he.noSlash
    have hroot : p ++ 0x2f :: e ≠ [0x2f] := fun hroot => hslash (hbase.symm.trans (by rw [hroot]; rfl))
    rw [hnames, hp, statName, hbase, getLastD_concat]
    exact if_neg (by simp [hroot, he.notDot, hslash])

end Follows

/-! ## Steps -/

section Steps

variable {ν η : Type} {cfg : Config ν} {s s' : Tracked ν η} {fid : Fid} {fs : FidState ν η}

/-- Also for the fids that are not bound: their paths are set when they are bound. -/
def Inv (s : Tracked ν η) : Prop := ∀ fid, Follows (s.paths fid) (s.trails fid)

theorem Inv.same (hs : Inv s) (hpaths : s'.paths = s.paths) (htrails : s'.trails = s.trails) : Inv s' := by
  intro f
  rw [hpaths, htrails]
  exact hs f

theorem Inv.bind (hs : Inv s) (hpaths : s'.paths = Function.update s.paths fid path)
    (htrails : s'.trails = Function.update s.trails fid t) (h : Follows path t) : Inv s' := by
  intro f
  rw [hpaths, htrails]
  by_cases hne : f = fid
  · rw [hne, update_self, update_self]
    exact h
  · rw [update_of_ne hne, update_of_ne hne]
    exact hs f

/-- The names of a full walk are valid. -/
theorem obtained_plain {m : Twalk} {lookup : Nat → Except Errno ν} (hdots : [0x2e] ∉ m.names ∧ [0x2e, 0x2e] ∉ m.names)
    (hlen : (obtained cfg m lookup fs).length = m.names.length) : ∀ e ∈ m.names, Plain e := by
  intro e he
  cases hvalid : validatePathElement e with
  | false =>
    obtain ⟨hne, hnil⟩ : m.names ≠ [] ∧ obtained cfg m lookup fs = [] := obtained_invalid he hvalid fs
    rw [hnil] at hlen
    exact absurd (length_eq_zero_iff.1 hlen.symm) hne
  | true =>
    simp only [validatePathElement, Bool.and_eq_true, Bool.not_eq_true', isEmpty_eq_false_iff] at hvalid
    exact ⟨⟨hvalid.1.1, fun h => hdots.1 (h ▸ he), by simpa using hvalid.1.2⟩, fun h => hdots.2 (h ▸ he)⟩

theorem plain_of_validName (h : validName name = true) : Plain name := by
  simp only [validName, Bool.and_eq_true, Bool.not_eq_true', isEmpty_eq_false_iff, bne_iff_ne] at h
  exact ⟨⟨h.1.1.1.1, h.1.1.1.2, by simpa using h.1.2⟩, h.1.1.2⟩

variable [DecidableEq ν]

theorem attach_inv {m : Tattach} (hs : Inv s) (hm : m.aname = []) :
    Inv ⟨(handleAttach cfg s.toSession m).2, follow s.trails (.attach m : Request ν η) (handleAttach cfg s.toSession m).1⟩ := by
  unfold handleAttach
  split
  · exact hs
  · split
    · exact hs
    · rename_i node _
      dsimp only
      rw [if_neg (not_not.2 hm)]
      obtain ⟨-, e, hadd⟩ | ⟨-, s₁, hadd, -, hpaths, -⟩ := addFid_cases cfg
        { s.toSession with toState := s.record (.lent node) } m.fid (.bound node .allocated) [0x2f]
      · rw [hadd]
        exact hs
      · rw [hadd]
        exact hs.bind hpaths rfl follows_root

theorem walk_inv {m : Twalk} {lookup : Nat → Except Errno ν} {r : Reply} {s₁ : Session ν η} (hs : Inv s)
    (hdots : [0x2e] ∉ m.names ∧ [0x2e, 0x2e] ∉ m.names) (hw : Walks cfg s.toSession m lookup r s₁) :
    Inv ⟨s₁, follow s.trails (.walk m lookup : Request ν η) r⟩ := by
  cases hw with
  | unbound | first => exact hs
  | full => exact hs.same (disposed_table _).2 rfl
  | part _ _ hlt =>
    refine hs.same (disposed_table _).2 (if_neg ?_)
    rw [length_map]
    exact Nat.ne_of_lt hlt
  | here _ hnames hfid =>
    refine hs.same rfl ?_
    simp [follow, hnames, hfid]
  | inPlace _ _ hlen _ _ hpaths | bound _ hlen _ _ _ hpaths =>
    refine hs.bind hpaths (if_pos ?_) ((hs m.fid).extend (obtained_plain hdots hlen))
    rwa [length_map]

/-- A create that is not refused had a valid name. -/
theorem createFid_cases (cfg : Config ν) (st : State ν η) (fid : Fid) (name : Bytes)
    (result : Except Errno (ν × Option η × UInt32)) (reply : QID → UInt32 → Reply) :
    (∃ e, (createFid cfg st fid name result reply).1 = .error e) ∨
      Plain name ∧ ∃ qid iounit, (createFid cfg st fid name result reply).1 = reply qid iounit := by
  unfold createFid
  split
  · exact .inl ⟨_, rfl⟩
  split
  · exact .inl ⟨_, rfl⟩
  split
  · exact .inl ⟨_, rfl⟩
  rename_i hname
  split
  · exact .inl ⟨_, rfl⟩
  split
  · exact .inl ⟨_, rfl⟩
  dsimp only
  split
  · exact .inl ⟨_, rfl⟩
  · exact .inr ⟨plain_of_validName (by simpa using hname), _, _, rfl⟩

theorem create_inv {name : Bytes} {result : Except Errno (ν × Option η × UInt32)} {reply : QID → UInt32 → Reply}
    {trails : Reply → Fid → Trail} (hs : Inv s) (herror : ∀ e, trails (.error e) = s.trails)
    (hreply : ∀ qid iounit, trails (reply qid iounit) =
      Function.update s.trails fid ⟨(s.trails fid).names ++ [name], true⟩) :
    Inv ⟨{ s.toSession with toState := (createFid cfg s.toState fid name result reply).2 },
      trails (createFid cfg s.toState fid name result reply).1⟩ := by
  obtain ⟨e, hr⟩ | ⟨hname, qid, iounit, hr⟩ := createFid_cases cfg s.toState fid name result reply
  · exact hs.same rfl ((congrArg trails hr).trans (herror e))
  · exact hs.bind (update_eq_self _ _).symm ((congrArg trails hr).trans (hreply qid iounit))
      ((hs fid).create hname)

theorem step_inv {r : Request ν η} (hs : Inv s) (hr : Direct r) (h : step cfg s r = some s') : Inv s' := by
  cases r with
  | remove | mkdir | symlink | mknod | xattrwalk | xattrcreate => cases h
  | attach m =>
    cases h
    exact attach_inv hs hr
  | walk m lookup =>
    cases h
    exact walk_inv hs hr (handleWalk_walks rfl)
  | clunk | lopen | uOpen | other =>
    cases h
    exact hs
  | lcreate m result =>
    cases h
    exact create_inv hs (fun _ => rfl) fun _ _ => rfl
  | uCreate m result =>
    cases h
    change Inv ⟨{ s.toSession with toState := (handleUCreate cfg s.toState m result).2 },
      follow s.trails (.uCreate m result) (handleUCreate cfg s.toState m result).1⟩
    unfold handleUCreate
    split
    · exact hs
    · split
      · exact hs
      · exact create_inv hs (fun _ => rfl) fun _ _ => rfl

/-- **The path of a fid.**  After every run the path of a fid has the names through which its node was reached just if
none of them was created on it, and then a `Tstat` answers with the last of them. -/
theorem path_names_iff {st : State ν η} {rs : List (Request ν η)} (hrs : ∀ r ∈ rs, Direct r)
    (h : run (step cfg) (start st) rs = some s') (hfs : s'.fids.get fid = some fs) :
    (s'.paths fid = 0x2f :: join (s'.trails fid).names ↔ (s'.trails fid).created = false) ∧
    ((s'.trails fid).created = false → ∀ attr, (handleUStat cfg s'.toSession ⟨fid⟩ (some (.ok attr))).map (·.name) =
      .ok ((s'.trails fid).names.getLastD [])) := by
  have hinv : Inv s' :=
    run_inv_of_meets (fun hs hr => step_inv hs hr) (fun _ => follows_root) (meets_of_forall hrs) h
  refine ⟨(hinv fid).path_iff, fun hcreated attr => ?_⟩
  rw [handleUStat, hfs]
  exact congrArg Except.ok ((hinv fid).name hcreated _ attr)

end Steps

def dirs : Config Bool where
  root := true
  anames := none
  maxFids := 0
  qid _ := ⟨qtDir, 0, 0⟩
  implements _ _ := true

def fresh : Tracked Bool Unit := start (Dispatch.init 8192)

/-- A walk to `a`, and a `Tcreate` of `b` in it. -/
def requests : List (Request Bool Unit) :=
  [.attach ⟨0, noFid, [], [], 0⟩, .walk ⟨0, 1, [[0x61]]⟩ fun _ => .ok false, .walk ⟨1, 2, []⟩ fun _ => .ok false,
    .uCreate ⟨2, [0x62], 0, 0, []⟩ (.ok (true, none, 0))]

theorem path_names_walked : ∃ s' fs, run (step dirs) fresh requests = some s' ∧ s'.fids.get 1 = some fs ∧
    (s'.paths 1 = 0x2f :: join (s'.trails 1).names ↔ (s'.trails 1).created = false) := by
  have hrs : ∀ r ∈ requests, Direct r := by simp [requests, Direct]
  have hrun : (run (step dirs) fresh requests).any (fun s => (s.fids.get 1).isSome) = true := by decide
  obtain ⟨s', hs', hget⟩ := (Option.any_eq_true _ _).1 hrun
  obtain ⟨fs, hfs⟩ := Option.isSome_iff_exists.1 hget
  exact ⟨s', fs, hs', hfs, (path_names_iff hrs hs' hfs).1⟩

/-- The path of the new file is that of its directory, and so is its name. -/
theorem path_after_create : (run (step dirs) fresh requests).map (fun s => ((s.trails 2).names, s.paths 2,
    (handleUStat dirs s.toSession ⟨2⟩ (some (.ok default))).toOption.map (·.name))) =
      some ([[0x61], [0x62]], [0x2f, 0x61], some [0x61]) := by
  decide

end NineP.Server.FidPath
