import NineP.Client.Ops

/-!
# What an operation holds

The rules of the commands: an operation has fids of its own, fresh ones that the server does not have and others that
it may have, and holds the read lock of one file at most.
-/

namespace NineP.Client

open Proto Program
open Rules (wp_bind wp_cmd)

/-! ## Resources -/

/-- What the server knows of a fid that an operation has. -/
inductive Status
  | fresh
  | own
  deriving DecidableEq

structure Res where
  fids : Fid → Option Status := fun _ => none
  /-- The file whose read lock is held, and its fid. -/
  lock : Option (Nat × Fid) := none

namespace Res

def set (r : Res) (fid : Fid) (st : Option Status) : Res := { r with fids := Function.update r.fids fid st }

variable {r : Res}

@[simp] theorem set_lock : (r.set fid st).lock = r.lock := rfl

@[simp] theorem set_self : (r.set fid st).fids fid = st := by simp [set]

theorem set_of_ne (h : fid' ≠ fid) : (r.set fid st).fids fid' = r.fids fid' := by simp [set, h]

@[simp] theorem set_set : (r.set fid st).set fid st' = r.set fid st' := by simp [set]

theorem set_eq_self (h : r.fids fid = st) : r.set fid st = r := by
  subst h
  simp [set]

/-- The fid may be named: it is the operation's own, or that of the file whose lock it holds. -/
def Holds (r : Res) (fid : Fid) : Prop := r.fids fid = some .own ∨ ∃ f, r.lock = some (f, fid)

theorem Holds.set (h : r.Holds fid) (hne : fid ≠ fid') : (r.set fid' st).Holds fid :=
  h.imp_left fun h => (set_of_ne hne).trans h

theorem holds_set_own : (r.set fid (some .own)).Holds fid := .inl set_self

def MayUse (r : Res) : Request → Prop
  | .attach fid => r.fids fid = some .fresh
  | .walk fid newFid _ | .xattrwalk fid newFid _ => r.Holds fid ∧ r.fids newFid = some .fresh
  | .clunk fid => r.fids fid = some .own
  | .on _ fids => ∀ fid ∈ fids, r.Holds fid

/-- What is left after an exchange. -/
def after (r : Res) (req : Request) : Except Err Reply → Res
  | .ok reply =>
    match req, reply with
    | .clunk fid, .rclunk | .clunk fid, .rerror _ => r.set fid (some .fresh)
    | .clunk fid, _ => r.set fid none
    | req, reply =>
      match req.binds reply with
      | some fid => r.set fid (some .own)
      | none => r
  | .error _ =>
    match req with
    | .clunk fid => r.set fid none
    | _ => r

end Res

/-- What the commands ask of an operation, and what they leave it.  Nothing is said of an exchange that fails because
the connection is closed. -/
def rules : Rules Cmd Cmd.Res Res where
  pre
    | .release fid, r => r.fids fid = some .fresh
    | .exchange req _ flushOnCancel, r => r.MayUse req ∧ (flushOnCancel = false → ∃ fid, req = .clunk fid)
    | .newFile fid, r => r.fids fid = some .own
    | .beginOp _, r | .endClose _, r => r.lock = none
    | .endOp f, r => ∃ fid, r.lock = some (f, fid)
    | _, _ => True
  post
    | .acquire, r, none, r' => r' = r
    | .acquire, r, some fid, r' => r.fids fid = none ∧ r' = r.set fid (some .fresh)
    | .release fid, r, _, r' => r' = r.set fid none
    | .exchange req _ _, r, x, r' => x ≠ .error .closed ∧ r' = r.after req x
    | .newFile fid, r, _, r' => r' = r.set fid none
    | .beginOp _, r, none, r' => r' = r
    | .beginOp f, r, some fid, r' => r' = { r with lock := some (f, fid) }
    | .endOp _, r, _, r' => r' = { r with lock := none }
    | .beginClose _, r, none, r' => r' = r
    | .beginClose _, r, some fid, r' => r.fids fid = none ∧ r' = r.set fid (some .own)
    | .signalShutdown, r, _, r' | .root, r, _, r' | .setRoot _, r, _, r' | .endClose _, r, _, r' => r' = r

/-! ## Commands -/

section Commands

theorem wp_acquire {Q : Option Fid → Res → Prop} (hnone : Q none r)
    (hsome : ∀ fid, r.fids fid = none → Q (some fid) (r.set fid (some .fresh))) : rules.Wp acquire Q r := by
  refine ⟨trivial, fun x r' h => ?_⟩
  cases x with
  | none =>
    obtain rfl := h
    exact hnone
  | some fid =>
    obtain ⟨hfid, rfl⟩ := h
    exact hsome fid hfid

variable {Q : Unit → Res → Prop}

theorem wp_release (h : r.fids fid = some .fresh) (hQ : Q () (r.set fid none)) : rules.Wp (release fid) Q r := by
  refine ⟨h, ?_⟩
  rintro ⟨⟩ r' rfl
  exact hQ

theorem wp_exchange {Q : Except Err Reply → Res → Prop}
    (hmay : r.MayUse req) (hflush : flushOnCancel = false → ∃ fid, req = .clunk fid)
    (hQ : ∀ x, x ≠ .error .closed → Q x (r.after req x)) : rules.Wp (exchange req zeroCopy flushOnCancel) Q r := by
  refine ⟨⟨hmay, hflush⟩, ?_⟩
  rintro x r' ⟨hx, rfl⟩
  exact hQ x hx

theorem wp_newFile {Q : Nat → Res → Prop} (h : r.fids fid = some .own) (hQ : ∀ f, Q f (r.set fid none)) :
    rules.Wp (newFile fid) Q r := by
  refine ⟨h, ?_⟩
  rintro f r' rfl
  exact hQ f

theorem wp_signalShutdown (hQ : Q () r) : rules.Wp signalShutdown Q r := by
  refine ⟨trivial, ?_⟩
  rintro ⟨⟩ r' rfl
  exact hQ

theorem wp_root {Q : Option Nat → Res → Prop} (hQ : ∀ f, Q f r) : rules.Wp root Q r := by
  refine ⟨trivial, ?_⟩
  rintro f r' rfl
  exact hQ f

theorem wp_setRoot (hQ : Q () r) : rules.Wp (setRoot f) Q r := by
  refine ⟨trivial, ?_⟩
  rintro ⟨⟩ r' rfl
  exact hQ

theorem wp_endClose (hlock : r.lock = none) (hQ : Q () r) : rules.Wp (endClose f) Q r := by
  refine ⟨hlock, ?_⟩
  rintro ⟨⟩ r' rfl
  exact hQ

theorem wp_beginClose {Q : Option Fid → Res → Prop} (hnone : Q none r)
    (hsome : ∀ fid, r.fids fid = none → Q (some fid) (r.set fid (some .own))) : rules.Wp (beginClose f) Q r := by
  refine ⟨trivial, fun x r' h => ?_⟩
  cases x with
  | none =>
    obtain rfl := h
    exact hnone
  | some fid =>
    obtain ⟨hfid, rfl⟩ := h
    exact hsome fid hfid

end Commands

/-! ## Round trips -/

section RoundTrips

variable {α : Type}

theorem wp_rtrip {req : Request} {expect : Reply → Option α} {Q : Except Error α → Res → Prop}
    (hreq : ∀ fid, req ≠ .clunk fid) (hmay : r.MayUse req)
    (hexpect : ∀ reply, expect reply = none → req.binds reply = none) (hrerror : ∀ n, expect (.rerror n) = none)
    (herr : ∀ e, Q (.error e) r) (hok : ∀ reply a, expect reply = some a → Q (.ok a) (r.after req (.ok reply))) :
    rules.Wp (rtrip req expect) Q r := by
  have hnone {reply : Reply} (h : expect reply = none) : r.after req (.ok reply) = r := by
    have := hexpect reply h
    cases req <;> simp_all [Res.after]
  refine wp_bind.2 (wp_exchange hmay (by simp) fun x _ => ?_)
  cases x with
  | error e =>
    have : r.after req (.error e) = r := by cases req <;> simp_all [Res.after]
    rw [this]
    exact herr _
  | ok reply =>
    cases reply with
    | rerror n =>
      rw [hnone (hrerror n)]
      exact herr _
    | _ =>
      simp only
      split
      · exact hok _ _ ‹_›
      · rw [hnone ‹_›]
        exact herr _

/-- A request that binds nothing leaves everything as it is. -/
theorem wp_on {type : MessageType} {expect : Reply → Option α} {Q : Except Error α → Res → Prop}
    (hrerror : ∀ n, expect (.rerror n) = none) (hfids : ∀ fid ∈ fids, r.Holds fid) (hQ : ∀ res, Q res r) :
    rules.Wp (rtrip (.on type fids) expect) Q r := by
  refine wp_rtrip (by simp) hfids (fun _ _ => by simp [Request.binds]) hrerror (fun e => hQ _) fun reply a _ => ?_
  simpa [Res.after, Request.binds] using hQ (.ok a)

theorem wp_tother {type : MessageType} {Q : Except Error Unit → Res → Prop}
    (hfids : ∀ fid ∈ fids, r.Holds fid) (hQ : ∀ res, Q res r) : rules.Wp (tother type fids) Q r :=
  wp_on (fun _ => rfl) hfids hQ

section Io

variable {Q : Except Error Nat → Res → Prop}

theorem wp_tread (hfid : r.Holds fid) (hQ : ∀ res, Q res r) : rules.Wp (tread fid size) Q r := by
  refine wp_bind.2 (wp_on (fun _ => rfl) (by simpa using hfid) fun res => ?_)
  cases res with
  | error e => exact hQ _
  | ok n =>
    dsimp only
    split
    · exact wp_bind.2 (wp_signalShutdown (hQ _))
    · exact hQ _

theorem wp_twrite (hfid : r.Holds fid) (hQ : ∀ res, Q res r) : rules.Wp (twrite fid size) Q r := by
  refine wp_bind.2 (wp_on (fun _ => rfl) (by simpa using hfid) fun res => ?_)
  cases res with
  | error e => exact hQ _
  | ok n =>
    dsimp only
    split
    · exact wp_bind.2 (wp_signalShutdown (hQ _))
    · exact hQ _

end Io

/-- **`cleanupFid`** gives up the fid, and releases it only if the server does not have it. -/
theorem wp_cleanupFid {Q : Except Error Unit → Res → Prop} (hfid : r.fids fid = some .own)
    (hQ : ∀ res, Q res (r.set fid none)) : rules.Wp (cleanupFid fid) Q r := by
  refine wp_bind.2 (wp_exchange hfid (fun _ => ⟨fid, rfl⟩) fun x hx => ?_)
  have hrelease (res : Except Error Unit) :
      rules.Wp (release fid >>= fun _ => pure res) Q (r.set fid (some .fresh)) := by
    refine wp_bind.2 (wp_release Res.set_self ?_)
    rw [Res.set_set]
    exact hQ _
  cases x with
  | error e =>
    cases e with
    | closed => exact absurd rfl hx
    | ctx | refused => exact hQ _
  | ok reply =>
    cases reply with
    | rclunk | rerror => exact hrelease _
    | _ => exact hQ _

/-- **`walkNew`** leaves things as they were, or with a new fid. -/
theorem wp_walkNew {Q : Except Error Fid → Res → Prop} (hbase : r.Holds base)
    (herr : ∀ e, Q (.error e) r) (hok : ∀ fid, r.fids fid = none → Q (.ok fid) (r.set fid (some .own))) :
    rules.Wp (walkNew base names) Q r := by
  refine wp_bind.2 (wp_acquire (herr _) fun fid hfid => ?_)
  have hne : base ≠ fid ∨ ∃ f, r.lock = some (f, base) := by
    rcases hbase with h | h
    · left
      rintro rfl
      simp [hfid] at h
    · exact .inr h
  have hbase' : (r.set fid (some .fresh)).Holds base := by
    rcases hne with hne | hlock
    · exact hbase.set hne
    · exact .inr hlock
  have hrelease (e : Error) : rules.Wp (release fid >>= fun _ => pure (.error e)) Q (r.set fid (some .fresh)) := by
    refine wp_bind.2 (wp_release Res.set_self ?_)
    rw [Res.set_set, Res.set_eq_self hfid]
    exact herr _
  refine wp_bind.2 (wp_rtrip (by simp) ⟨hbase', Res.set_self⟩ ?_ (fun _ => rfl) hrelease fun reply qids h => ?_)
  · intro reply h
    cases reply <;> simp_all [Request.binds]
  · cases reply with
    | rwalk n =>
      obtain rfl := Option.some.inj h
      dsimp only
      by_cases hn : names = [] ∨ n = names.length
      · rw [if_neg (by tauto)]
        simpa [Res.after, Request.binds, hn] using hok fid hfid
      · have hafter : (r.set fid (some .fresh)).after (.walk base fid names) (.ok (.rwalk n)) =
            r.set fid (some .fresh) := by simp [Res.after, Request.binds, hn]
        rw [hafter, if_pos (not_or.1 hn)]
        exact hrelease _
    | _ => cases h

theorem wp_cleanupAfter (hfid : r.fids fid = some .own) :
    rules.Wp (cleanupAfter fid e) (fun _ r' => r'.lock = r.lock) r :=
  wp_bind.2 (wp_cleanupFid hfid fun _ => rfl)

theorem wp_returnFile (hfid : r.fids fid = some .own) :
    rules.Wp (returnFile fid) (fun _ r' => r'.lock = r.lock) r :=
  wp_bind.2 (wp_newFile hfid fun _ => rfl)

end RoundTrips

/-! ## Operations -/

section Operations

variable {α : Type}

theorem wp_withFile {body : Fid → Op (Except Error α)} {Q : Except Error α → Res → Prop} (hlock : r.lock = none)
    (hclosed : Q (.error .closed) r)
    (hbody : ∀ fid, rules.Wp (body fid) (fun res r' => (∃ fid, r'.lock = some (f, fid)) ∧ Q res { r' with lock := none })
      { r with lock := some (f, fid) }) : rules.Wp (withFile f body) Q r := by
  refine wp_bind.2 ⟨hlock, fun x r' h => ?_⟩
  cases x with
  | none =>
    obtain rfl := h
    exact hclosed
  | some fid =>
    obtain rfl := h
    refine wp_bind.2 ((hbody fid).mono fun res r' hr => ?_)
    refine wp_bind.2 ⟨hr.1, ?_⟩
    rintro ⟨⟩ r'' rfl
    exact hr.2

theorem wp_withFile_of_holds {body : Fid → Op (Except Error α)} (hlock : r.lock = none)
    (hbody : ∀ fid r, r.Holds fid → rules.Wp (body fid) (fun _ r' => r'.lock = r.lock) r) :
    rules.Wp (withFile f body) (fun _ _ => True) r :=
  wp_withFile hlock trivial fun fid =>
    (hbody fid _ (.inr ⟨f, rfl⟩)).mono fun _ _ h => ⟨⟨fid, h⟩, trivial⟩

theorem wp_withRoot {body : Fid → Op (Except Error α)} (hlock : r.lock = none)
    (hbody : ∀ fid r, r.Holds fid → rules.Wp (body fid) (fun _ r' => r'.lock = r.lock) r) :
    rules.Wp (withRoot body) (fun _ _ => True) r := by
  refine wp_bind.2 (wp_root fun f => ?_)
  cases f with
  | none => trivial
  | some f => exact wp_withFile_of_holds hlock hbody

theorem wp_requireL {p : Op (Except Error α)} {Q : Except Error α → Res → Prop} (herr : Q (.error .other) r)
    (hp : rules.Wp p Q r) : rules.Wp (requireL cfg p) Q r := by
  unfold requireL
  split
  · exact hp
  · exact herr

theorem wp_attach : rules.Wp attach (fun _ _ => True) r := by
  refine wp_bind.2 (wp_acquire trivial fun fid hfid => ?_)
  refine wp_bind.2 (wp_rtrip (by simp) Res.set_self ?_ (fun _ => rfl) (fun e => ?_) fun reply a h => ?_)
  · intro reply h
    cases reply <;> simp_all [Request.binds]
  · exact wp_bind.2 (wp_release Res.set_self trivial)
  · cases reply with
    | rattach => exact wp_bind.2 (wp_newFile (by simp [Res.after, Request.binds]) fun f =>
        wp_bind.2 (wp_setRoot trivial))
    | _ => cases h

theorem wp_openFile (path : List String) (hlock : r.lock = none) :
    rules.Wp (openFile cfg path) (fun _ _ => True) r := by
  refine wp_withRoot hlock fun base r hbase => ?_
  refine wp_bind.2 (wp_walkNew hbase (fun _ => rfl) fun fid _ => ?_)
  refine wp_bind.2 (wp_tother (by simp [Res.holds_set_own]) fun res => ?_)
  cases res with
  | error e => exact wp_cleanupAfter Res.set_self
  | ok _ => exact wp_returnFile Res.set_self

theorem wp_create (path : List String) (hlock : r.lock = none) :
    rules.Wp (create cfg path) (fun _ _ => True) r := by
  refine wp_withRoot hlock fun base r hbase => ?_
  cases splitLast path with
  | none => rfl
  | some split =>
    refine wp_bind.2 (wp_walkNew hbase (fun _ => rfl) fun fid _ => ?_)
    refine wp_bind.2 (wp_tother (by simp [Res.holds_set_own]) fun res => ?_)
    cases res with
    | error e => exact wp_cleanupAfter Res.set_self
    | ok _ => exact wp_returnFile Res.set_self

theorem wp_walk (names : List String) (hlock : r.lock = none) : rules.Wp (walk f names) (fun _ _ => True) r := by
  refine wp_withFile_of_holds hlock fun base r hbase => ?_
  split
  · rfl
  · exact wp_bind.2 (wp_walkNew hbase (fun _ => rfl) fun fid _ => wp_returnFile Res.set_self)

theorem wp_cloneFid (hlock : r.lock = none) :
    rules.Wp (cloneFid f) (fun res r' => r'.lock = none ∧ ∀ fid, res = .ok fid → r'.fids fid = some .own) r := by
  refine wp_withFile hlock ⟨hlock, by simp⟩ fun base => ?_
  refine wp_walkNew (.inr ⟨f, rfl⟩) (fun e => ⟨⟨base, rfl⟩, rfl, by simp⟩) fun fid _ => ⟨⟨base, rfl⟩, rfl, ?_⟩
  rintro fid' ⟨⟩
  exact Res.set_self

theorem wp_clone (hlock : r.lock = none) : rules.Wp (clone f) (fun _ _ => True) r := by
  refine wp_bind.2 ((wp_cloneFid hlock).mono fun res r' h => ?_)
  cases res with
  | error e => trivial
  | ok fid => exact (wp_returnFile (h.2 fid rfl)).mono fun _ _ _ => trivial

theorem wp_close (hlock : r.lock = none) : rules.Wp (close f) (fun _ _ => True) r := by
  refine wp_bind.2 (wp_beginClose trivial fun fid _ => ?_)
  exact wp_bind.2 (wp_cleanupFid Res.set_self fun _ => wp_bind.2 (wp_endClose hlock trivial))

theorem wp_fileOps (types : List MessageType) (hlock : r.lock = none) :
    rules.Wp (fileOps f types) (fun _ _ => True) r := by
  refine wp_withFile_of_holds hlock fun base r hbase => ?_
  induction types with
  | nil => rfl
  | cons type types ih =>
    refine wp_bind.2 (wp_exchange (by simpa [Res.MayUse] using hbase) (by simp) fun x _ => ?_)
    cases x with
    | error e => rfl
    | ok reply => cases reply <;> first | rfl | exact ih

theorem wp_makeNode (type : MessageType) (path : List String) (hlock : r.lock = none) :
    rules.Wp (makeNode cfg type path) (fun _ _ => True) r := by
  refine wp_requireL trivial (wp_withRoot hlock fun base r hbase => ?_)
  cases splitLast path with
  | none => rfl
  | some split =>
    refine wp_bind.2 (wp_walkNew hbase (fun _ => rfl) fun dirFid _ => ?_)
    refine wp_bind.2 (wp_tother (by simp [Res.holds_set_own]) fun res => ?_)
    cases res with
    | error e => exact wp_cleanupAfter Res.set_self
    | ok _ =>
      refine wp_bind.2 (wp_walkNew Res.holds_set_own (fun e => ?_) fun newFid hnew => ?_)
      · exact wp_bind.2 (wp_cleanupFid Res.set_self fun _ => rfl)
      · have hne : newFid ≠ dirFid := by
          rintro rfl
          simp at hnew
        refine wp_bind.2 (wp_cleanupFid ?_ fun _ => ?_)
        · rw [Res.set_of_ne hne.symm, Res.set_self]
        · refine (wp_returnFile ?_).mono fun _ _ h => h
          rw [Res.set_of_ne hne, Res.set_self]

theorem wp_onTwo {type : MessageType} (first second : List String) {fids : Fid → Fid → List Fid}
    (hfids : ∀ x y, ∀ z ∈ fids x y, z = x ∨ z = y) (hbase : r.Holds base) :
    rules.Wp (onTwo type base first second fids) (fun _ r' => r'.lock = r.lock) r := by
  refine wp_bind.2 (wp_walkNew hbase (fun _ => rfl) fun fid hfid => ?_)
  have hbase' : (r.set fid (some .own)).Holds base := by
    by_cases hne : base = fid
    · exact hne ▸ Res.holds_set_own
    · exact hbase.set hne
  refine wp_bind.2 (wp_walkNew hbase' (fun e => wp_cleanupAfter Res.set_self) fun fid' hfid' => ?_)
  have hne : fid ≠ fid' := by
    rintro rfl
    simp at hfid'
  refine wp_bind.2 (wp_tother (fun z hz => ?_) fun res => ?_)
  · rcases hfids fid fid' z hz with rfl | rfl
    · exact Res.holds_set_own.set hne
    · exact Res.holds_set_own
  · refine wp_bind.2 (wp_cleanupFid Res.set_self fun _ => ?_)
    refine wp_bind.2 (wp_cleanupFid ?_ fun _ => rfl)
    rw [Res.set_set, Res.set_of_ne hne, Res.set_self]

theorem wp_rename (fromPath toPath : List String) (hlock : r.lock = none) :
    rules.Wp (rename cfg fromPath toPath) (fun _ _ => True) r := by
  refine wp_requireL trivial (wp_withRoot hlock fun base r hbase => ?_)
  split
  · exact wp_onTwo _ _ (by simp) hbase
  · rfl

theorem wp_link (existingPath newPath : List String) (hlock : r.lock = none) :
    rules.Wp (link cfg existingPath newPath) (fun _ _ => True) r := by
  refine wp_requireL trivial (wp_withRoot hlock fun base r hbase => ?_)
  split
  · exact wp_onTwo _ _ (by simp [or_comm]) hbase
  · rfl

theorem wp_remove (path : List String) (hlock : r.lock = none) :
    rules.Wp (remove cfg path) (fun _ _ => True) r := by
  refine wp_requireL trivial (wp_withRoot hlock fun base r hbase => ?_)
  cases splitLast path with
  | none => rfl
  | some split =>
    refine wp_bind.2 (wp_walkNew hbase (fun _ => rfl) fun dirFid _ => ?_)
    have hcleanup (res : Except Error Unit) : rules.Wp (cleanupFid dirFid >>= fun _ => pure res)
        (fun _ r' => r'.lock = r.lock) (r.set dirFid (some .own)) :=
      wp_bind.2 (wp_cleanupFid Res.set_self fun _ => rfl)
    refine wp_bind.2 (wp_tother (by simp [Res.holds_set_own]) fun res => ?_)
    dsimp only
    split
    · exact wp_bind.2 (wp_tother (by simp [Res.holds_set_own]) hcleanup)
    · exact hcleanup res

theorem wp_xattrReadLoop (size chunk off : Nat) (hfid : r.fids fid = some .own) :
    rules.Wp (xattrReadLoop fid size chunk off) (fun _ r' => r'.lock = r.lock) r := by
  fun_induction xattrReadLoop fid size chunk off with
  | case1 off hlt ih =>
    refine wp_bind.2 (wp_tread (.inl hfid) fun res => ?_)
    cases res with
    | error e => exact wp_cleanupAfter hfid
    | ok n =>
      dsimp only
      split
      · exact wp_cleanupAfter hfid
      · rename_i hn
        split
        · exact wp_cleanupAfter hfid
        · exact ih n hn ‹_›
  | case2 off hlt => exact wp_cleanupFid hfid fun _ => rfl

theorem wp_xattrWriteLoop (size chunk off : Nat) (hfid : r.fids fid = some .own) :
    rules.Wp (xattrWriteLoop fid size chunk off) (fun _ r' => r'.lock = r.lock) r := by
  fun_induction xattrWriteLoop fid size chunk off with
  | case1 off hlt ih =>
    refine wp_bind.2 (wp_twrite (.inl hfid) fun res => ?_)
    cases res with
    | error e => exact wp_cleanupAfter hfid
    | ok n =>
      dsimp only
      split
      · exact wp_cleanupAfter hfid
      · exact ih n ‹_›
  | case2 off hlt => exact wp_cleanupFid hfid fun _ => rfl

theorem wp_twoPhaseXattrRead (name : String) (hlock : r.lock = none) :
    rules.Wp (twoPhaseXattrRead cfg f name) (fun _ _ => True) r := by
  refine wp_withFile_of_holds hlock fun base r hbase => wp_requireL rfl ?_
  refine wp_bind.2 (wp_acquire rfl fun fid hfid => ?_)
  have hbase' : (r.set fid (some .fresh)).Holds base := by
    rcases hbase with h | h
    · refine .inl ((Res.set_of_ne ?_).trans h)
      rintro rfl
      simp [hfid] at h
    · exact .inr h
  refine wp_bind.2 (wp_rtrip (by simp) ⟨hbase', Res.set_self⟩ ?_ (fun _ => rfl) (fun e => ?_) fun reply size h => ?_)
  · intro reply h
    cases reply <;> simp_all [Request.binds]
  · exact wp_bind.2 (wp_release Res.set_self rfl)
  · have hown : ((r.set fid (some .fresh)).after (.xattrwalk base fid name) (.ok reply)).fids fid = some .own := by
      cases reply <;> simp_all [Res.after, Request.binds]
    have hlock' : ((r.set fid (some .fresh)).after (.xattrwalk base fid name) (.ok reply)).lock = r.lock := by
      cases reply <;> simp_all [Res.after, Request.binds]
    dsimp only
    rw [← hlock']
    split
    · exact wp_cleanupAfter hown
    · split
      · exact wp_cleanupFid hown fun _ => rfl
      · split
        · exact wp_cleanupAfter hown
        · exact wp_xattrReadLoop _ _ _ hown

theorem wp_xattrSet (size : Nat) (hlock : r.lock = none) : rules.Wp (xattrSet cfg f size) (fun _ _ => True) r := by
  refine wp_requireL trivial (wp_bind.2 ((wp_cloneFid hlock).mono fun res r' h => ?_))
  cases res with
  | error e => trivial
  | ok fid =>
    have hown := h.2 fid rfl
    refine wp_bind.2 (wp_tother (by simpa using .inl hown) fun res => ?_)
    cases res with
    | error e => exact (wp_cleanupAfter hown).mono fun _ _ _ => trivial
    | ok _ =>
      dsimp only
      split
      · exact (wp_cleanupAfter hown).mono fun _ _ _ => trivial
      · exact (wp_xattrWriteLoop _ _ _ hown).mono fun _ _ _ => trivial

theorem wp_call (call : ApiCall) (hlock : r.lock = none) : rules.Wp (call.op cfg) (fun _ _ => True) r := by
  cases call with
  | attach => exact wp_attach
  | openFile path => exact wp_openFile path hlock
  | create path => exact wp_create path hlock
  | walk f names => exact wp_walk names hlock
  | clone f => exact wp_clone hlock
  | close f => exact wp_close hlock
  | fileOps f types => exact wp_fileOps types hlock
  | mkdir path | mknod path | symlink path => exact wp_makeNode _ path hlock
  | rename fromPath toPath => exact wp_rename fromPath toPath hlock
  | link existingPath newPath => exact wp_link existingPath newPath hlock
  | remove path => exact wp_remove path hlock
  | xattrGet f name => exact wp_twoPhaseXattrRead name hlock
  | xattrList f => exact wp_twoPhaseXattrRead _ hlock
  | xattrSet f size => exact wp_xattrSet size hlock
  | xattrRemove f => exact wp_xattrSet 0 hlock

end Operations

end NineP.Client
