import NineP.Client.Transfer

/-!
# Listing a directory

`File.ReadDir` against a server that lists the directory with `readdirSimple`: the cookies and the cache of the server,
the packing of entries into responses, and the cursor of the client.
-/

namespace NineP.Client.Transfer

open Codec Proto List
open Server (FidStatus)
open Server.DataPath (FidState Target serve handleReaddir readdirTarget readdirSimple dirView withCookies)
open Server.Replies (Dirent clampCount clampCount_of_le encodeDirentsInto encodeDirentsInto_le encodeDirentsInto_eq
  direntBytes direntBytes_eq_nil parseDirents parseDirents_bytes)

variable {ν : Type}

/-! ## The entries that a call should return -/

/-- Of the entries `ds` that are left, what `ReadDir(n)` adds to `m` entries. -/
def portion (n : Int) (m : Nat) (ds : List Dirent) : List Dirent := if 0 < n then ds.take (n.toNat - m) else ds

/-- There are `n` entries. -/
def enough (n : Int) (m : Nat) : Prop := 0 < n ∧ n ≤ m

instance (n : Int) (m : Nat) : Decidable (enough n m) := inferInstanceAs (Decidable (_ ∧ _))

theorem portion_nil (n : Int) (m : Nat) : portion n m [] = [] := by
  unfold portion
  split <;> simp

theorem portion_isPrefix (n : Int) (m : Nat) (ds : List Dirent) : portion n m ds <+: ds := by
  unfold portion
  split
  · exact take_prefix _ _
  · exact prefix_refl _

variable {n : Int} {m k : Nat} {ps ds : List Dirent} {d : Dirent}

theorem portion_cons (h : ¬enough n m) (d : Dirent) (ds : List Dirent) :
    portion n m (d :: ds) = d :: portion n (m + 1) ds := by
  unfold portion
  split
  · rename_i hn
    have hlt : m < n.toNat := by
      unfold enough at h
      omega
    rw [show n.toNat - m = (n.toNat - (m + 1)) + 1 by omega, take_succ_cons]
  · rfl

theorem portion_of_enough (h : enough n m) (ds : List Dirent) : portion n m ds = [] := by
  obtain ⟨hn, hle⟩ := h
  rw [portion, if_pos hn, show n.toNat - m = 0 by omega, take_zero]

theorem portion_append (h : ¬enough n (m + ps.length)) (ds : List Dirent) :
    portion n m (ps ++ ds) = ps ++ portion n (m + ps.length) ds := by
  induction ps generalizing m with
  | nil => rfl
  | cons d ps ih =>
    have hm : ¬enough n m := fun hm => h ⟨hm.1, by have := hm.2; rw [length_cons]; omega⟩
    rw [length_cons, Nat.add_comm ps.length, ← Nat.add_assoc] at h
    rw [cons_append, portion_cons hm, ih h, length_cons, Nat.add_comm ps.length, ← Nat.add_assoc]
    rfl

theorem portion_append_left (h : enough n (m + ps.length)) (ds : List Dirent) :
    portion n m (ps ++ ds) = portion n m ps := by
  obtain ⟨hn, hle⟩ := h
  rw [portion, portion, if_pos hn, if_pos hn, take_append_of_le_length (by omega)]

theorem portion_length_of_enough (hm : ¬enough n m) (h : enough n (m + ps.length)) :
    m + (portion n m ps).length = n.toNat := by
  obtain ⟨hn, hle⟩ := h
  have hlt : m < n.toNat := by
    unfold enough at hm
    omega
  rw [portion, if_pos hn, length_take]
  omega

/-- What one call after another should return. -/
def portions : List Int → List Dirent → List (List Dirent)
  | [], _ => []
  | n :: ns, ds => portion n 0 ds :: portions ns (ds.drop (portion n 0 ds).length)

theorem portions_isPrefix (ns : List Int) (ds : List Dirent) : (portions ns ds).flatten <+: ds := by
  induction ns generalizing ds with
  | nil => exact nil_prefix
  | cons n ns ih =>
    obtain ⟨rest, hrest⟩ := portion_isPrefix n 0 ds
    have hdrop : ds.drop (portion n 0 ds).length = rest := by
      have hleft : (portion n 0 ds ++ rest).drop (portion n 0 ds).length = rest := drop_left
      rwa [hrest] at hleft
    have hpre := (prefix_append_right_inj (portion n 0 ds)).2 (ih rest)
    rw [hrest] at hpre
    rw [portions, flatten_cons, hdrop]
    exact hpre

/-- How many entries a call should return when there are `left` of them. -/
def portionLength (n : Int) (left : Nat) : Nat := if 0 < n then min n.toNat left else left

theorem portion_length (n : Int) (ds : List Dirent) : (portion n 0 ds).length = portionLength n ds.length := by
  unfold portion portionLength
  split
  · rw [length_take, Nat.sub_zero]
  · rfl

theorem portions_length (ns : List Int) (ds : List Dirent) : (portions ns ds).length = ns.length := by
  induction ns generalizing ds with
  | nil => rfl
  | cons n ns ih => rw [portions, length_cons, length_cons, ih]

theorem portions_get (hn : ns[i]? = some n)
    (hes : (portions ns ds)[i]? = some es) :
    es.length = portionLength n (ds.length - ((portions ns ds).take i).flatten.length) := by
  induction ns generalizing ds i with
  | nil => cases hn
  | cons k ns ih =>
    cases i with
    | zero =>
      cases hn
      cases hes
      rw [portion_length]
      rfl
    | succ i =>
      rw [ih hn hes, length_drop]
      congr 1
      rw [portions, take_succ_cons, flatten_cons, length_append]
      omega

/-! ## The loop over a response -/

/-- The cookies of entries that stand in the listing from index `k` on. -/
def CookiesFrom (k : Nat) (ds : List Dirent) : Prop := ∀ i d, ds[i]? = some d → d.offset = UInt64.ofNat (k + i + 1)

theorem CookiesFrom.tail (h : CookiesFrom k (d :: ds)) : CookiesFrom (k + 1) ds := by
  intro i d' hd'
  rw [h (i + 1) d' hd']
  congr 1
  omega

theorem CookiesFrom.left (h : CookiesFrom k (ps ++ ds)) : CookiesFrom k ps := by
  intro i d hd
  exact h i d (by rw [getElem?_append_left (List.getElem?_eq_some_iff.1 hd).1, hd])

theorem CookiesFrom.drop (h : CookiesFrom 0 ds) (k : Nat) : CookiesFrom k (ds.drop k) := by
  intro i d hd
  rw [getElem?_drop] at hd
  have := h (k + i) d hd
  rwa [Nat.zero_add] at this

theorem collect_eq (hps : CookiesFrom k ps) (hnot : ¬enough n entries.length) :
    collect n ps entries (UInt64.ofNat k) =
      (entries ++ portion n entries.length ps, UInt64.ofNat (k + (portion n entries.length ps).length),
        decide (enough n (entries.length + ps.length))) := by
  induction ps generalizing entries k with
  | nil =>
    rw [portion_nil, append_nil]
    simp [collect, hnot]
  | cons d ps ih =>
    have hd : d.offset = UInt64.ofNat (k + 1) := hps 0 d rfl
    have hlen : (entries ++ [d]).length = entries.length + 1 := length_append
    rw [portion_cons hnot]
    by_cases henough : enough n (entries.length + 1)
    · have hmore : enough n (entries.length + (d :: ps).length) :=
        ⟨henough.1, by have := henough.2; rw [length_cons]; omega⟩
      have hif : 0 < n ∧ n ≤ ((entries ++ [d]).length : Int) := by
        rw [hlen]
        exact henough
      rw [collect, if_pos hif, portion_of_enough henough, hd, decide_eq_true hmore]
      rfl
    · have hif : ¬(0 < n ∧ n ≤ ((entries ++ [d]).length : Int)) := by
        rw [hlen]
        exact henough
      rw [collect, if_neg hif, hd, ih hps.tail (by rw [hlen]; exact henough)]
      simp only [hlen, append_assoc, singleton_append, length_cons]
      rw [show k + 1 + (portion n (entries.length + 1) ps).length = k + ((portion n (entries.length + 1) ps).length + 1) by
        omega, show entries.length + 1 + ps.length = entries.length + (ps.length + 1) by omega]

/-! ## One exchange -/

theorem maxChunk_le (hmin : 256 ≤ msize.toNat) (iounit : UInt32) :
    (maxChunk msize iounit).toNat ≤ msize.toNat - 24 ∧ (maxChunk msize iounit).toNat ≤ maxDataSize := by
  have hlimit : (msize - ioFrameOverhead).toNat = msize.toNat - 24 :=
    UInt32.toNat_sub_of_le _ _ (UInt32.le_iff_toNat_le.2 (by show 24 ≤ _; omega))
  have hmin' (a b : UInt32) : (min a b).toNat ≤ a.toNat ∧ (min a b).toNat ≤ b.toNat := by
    show (if a ≤ b then a else b).toNat ≤ a.toNat ∧ (if a ≤ b then a else b).toNat ≤ b.toNat
    split
    · exact ⟨Nat.le_refl _, UInt32.le_iff_toNat_le.1 ‹_›⟩
    · exact ⟨UInt32.le_iff_toNat_le.1 (UInt32.le_of_lt (UInt32.not_le.1 ‹_›)), Nat.le_refl _⟩
  unfold maxChunk
  obtain ⟨hleft, hright⟩ := hmin' (if iounit ≠ 0 ∧ iounit < msize - ioFrameOverhead then iounit
    else msize - ioFrameOverhead) (UInt32.ofNat maxDataSize)
  refine ⟨Nat.le_trans hleft ?_, hright⟩
  rw [← hlimit]
  split
  · rename_i hiounit
    exact Nat.le_of_lt (UInt32.lt_iff_toNat_lt.1 hiounit.2)
  · exact Nat.le_refl _

section Exchange

variable {l : Link ν} {f : FidState ν} {file : File} {t : Target ν} {w : World ν} {ds : List Dirent} {k : Nat}

/-- The fid is open on a directory that `t` lists with `Readdir`. -/
structure Opened (l : Link ν) (fid : Fid) (t : Target ν) (f : FidState ν) (s : State ν) : Prop where
  lookup : s.fids.lookup fid = some f
  opened : f.state = .opened
  target : readdirTarget l.cfg f = some (t, false)

/-- The server has the listing `ds` of the directory. -/
structure Cached (l : Link ν) (fid : Fid) (t : Target ν) (ds : List Dirent) (f : FidState ν) (s : State ν) : Prop
    extends Opened l fid t f s where
  cached : f.dirCached = true
  cache : f.dirCache = ds

/-- The entries of the listing fit the responses that the client asks for. -/
structure Fits (l : Link ν) (iounit : UInt32) (ds : List Dirent) : Prop where
  names : ∀ d ∈ ds, d.name.length ≤ 0xFFFF
  sizes : ∀ d ∈ ds, 24 + d.name.length ≤ (maxChunk l.msize iounit).toNat
  cookies : CookiesFrom 0 ds
  length : ds.length < 2 ^ 63

theorem Cached.mono (h : Cached l fid t ds f s)
    (hlookup : s'.fids.lookup fid = s.fids.lookup fid) : Cached l fid t ds f s' :=
  { h with lookup := hlookup.trans h.lookup }

theorem Opened.handleReaddir {m : P9l.Treaddir} (h : Opened l m.fid t f s) :
    Server.DataPath.handleReaddir l.cfg s m = readdirSimple l.cfg s f m (clampCount l.cfg.params m.count) t := by
  unfold Server.DataPath.handleReaddir
  rw [h.lookup]
  simp only [h.target]
  rw [if_neg (not_not.2 h.opened)]

/-- What `readdirSimple` answers from the listing `ds` that it has. -/
def packed (l : Link ν) (iounit : UInt32) (ds : List Dirent) (k : Nat) : Bytes :=
  encodeDirentsInto (maxChunk l.msize iounit).toNat (ds.drop k) []

theorem packed_eq (hfits : Fits l file.iounit ds) : ∃ ps rest, ds.drop k = ps ++ rest ∧ packed l file.iounit ds k = direntBytes ps ∧
    (ps = [] → rest = []) := by
  have hnames : ∀ d ∈ ds.drop k, d.name.length ≤ 0xFFFF := fun d hd => hfits.names d (mem_of_mem_drop hd)
  obtain ⟨ps, rest, hsplit, heq, hnext⟩ :=
    @encodeDirentsInto_eq _ (maxChunk l.msize file.iounit).toNat hnames []
  refine ⟨ps, rest, hsplit, by rw [packed, heq, nil_append], ?_⟩
  rintro rfl
  cases rest with
  | nil => rfl
  | cons d rest =>
    have hmem : d ∈ ds.drop k := by
      rw [hsplit]
      exact mem_cons_self
    have hsize := hfits.sizes d (mem_of_mem_drop hmem)
    have hbig := hnext d rfl
    simp [direntBytes] at hbig
    omega

section Treaddir

variable (hmin : 256 ≤ l.msize.toNat)
include hmin

theorem treaddir_ok {count : UInt32}
    (hcount : count.toNat ≤ l.msize.toNat - 24 ∧ count.toNat ≤ maxDataSize) (hdata : data.length ≤ count.toNat)
    (hserve : handleReaddir l.cfg (l.others w.exchanges w.server) ⟨fid, offset, count⟩ = (.rreaddir ⟨data⟩, s)) :
    treaddir l fid offset count w = (.ok data, ⟨s, w.exchanges + 1⟩) := by
  refine rtrip_ok (.rreaddir ⟨data⟩) ?_ hserve ?_ rfl nofun
  · exact P9l.carry_eq (P9l.treaddir_body _) trivial (by omega)
  · exact P9l.carry_eq (P9l.rreaddir_body (Nat.le_trans hdata hcount.2)) trivial (by simp only; omega)

omit hmin in
theorem toNat_ofNat (hk : k ≤ ds.length) (hlen : ds.length < 2 ^ 63) : (UInt64.ofNat k).toNat = k := by
  rw [UInt64.toNat_ofNat', Nat.mod_eq_of_lt (by omega)]

omit hmin in
theorem dirView_ofNat (hk : k ≤ ds.length) (hlen : ds.length < 2 ^ 63) : dirView ds (UInt64.ofNat k) = ds.drop k := by
  rw [dirView, toNat_ofNat hk hlen, Nat.min_eq_left hk]

omit hmin in
theorem packed_length : (packed l file.iounit ds k).length ≤ (maxChunk l.msize file.iounit).toNat :=
  encodeDirentsInto_le _ (Nat.zero_le _)

theorem treaddir_cached (hc : Cached l file.fid t ds f (l.others w.exchanges w.server))
    (hfits : Fits l file.iounit ds) (hoffset : file.readdirOffset = UInt64.ofNat k) (hk : k ≤ ds.length) (hk0 : k ≠ 0) :
    treaddir l file.fid file.readdirOffset (maxChunk l.msize file.iounit) w =
      (.ok (packed l file.iounit ds k), ⟨l.others w.exchanges w.server, w.exchanges + 1⟩) := by
  have hchunk := maxChunk_le hmin file.iounit
  have hne : UInt64.ofNat k ≠ 0 := by
    intro h0
    have := congrArg UInt64.toNat h0
    rw [toNat_ofNat hk hfits.length] at this
    exact hk0 this
  refine treaddir_ok hmin hchunk packed_length ?_
  rw [Opened.handleReaddir hc.toOpened, clampCount_of_le hmin (Nat.le_trans hchunk.1 (Nat.sub_le_sub_left (by decide) _)), readdirSimple, hoffset]
  simp only [hc.cached, hc.cache, hne, Bool.not_true, Bool.false_eq_true, or_self, if_false]
  rw [dirView_ofNat hk hfits.length, packed]

theorem treaddir_fetch (ho : Opened l file.fid t f (l.others w.exchanges w.server))
    (hlist : l.cfg.fs.readdir (l.others w.exchanges w.server).calls t = .ok ls) (hds : withCookies ls = ds)
    (hoffset : file.readdirOffset = 0) :
    ∃ s f', treaddir l file.fid file.readdirOffset (maxChunk l.msize file.iounit) w =
      (.ok (packed l file.iounit ds 0), ⟨s, w.exchanges + 1⟩) ∧ Cached l file.fid t ds f' s := by
  have hchunk := maxChunk_le hmin file.iounit
  subst hds
  refine ⟨((l.others w.exchanges w.server).call (.readdir t)).set file.fid
    { f with dirCache := withCookies ls, dirCached := true }, { f with dirCache := withCookies ls, dirCached := true },
    treaddir_ok hmin hchunk packed_length ?_, ?_⟩
  · rw [Opened.handleReaddir ho, clampCount_of_le hmin (Nat.le_trans hchunk.1 (Nat.sub_le_sub_left (by decide) _)), readdirSimple, hoffset]
    simp only [true_or, if_true, hlist]
    rw [dirView, packed, UInt64.toNat_zero, Nat.zero_min]
  · exact ⟨⟨AList.lookup_insert _, ho.opened, ho.target⟩, rfl, rfl⟩

end Treaddir

/-- The server will answer the next `Treaddir` of the client from the listing `ds`. -/
structure Ready (l : Link ν) (file : File) (t : Target ν) (ds : List Dirent) (k : Nat) (w : World ν) : Prop where
  offset : file.readdirOffset = UInt64.ofNat k
  inside : k ≤ ds.length
  opened : ∃ f, Opened l file.fid t f w.server
  cached : k ≠ 0 → ∃ f, Cached l file.fid t ds f w.server
  listing : k = 0 → ∃ ls, l.cfg.fs.readdir (l.others w.exchanges w.server).calls t = .ok ls ∧ withCookies ls = ds

/-- Requests on other fids leave the fid alone. -/
def Apart (l : Link ν) (fid : Fid) : Prop := ∀ i s, (l.others i s).fids.lookup fid = s.fids.lookup fid

theorem Ready.treaddir (hmin : 256 ≤ l.msize.toNat) (hapart : Apart l file.fid) (hfits : Fits l file.iounit ds)
    (h : Ready l file t ds k w) :
    ∃ w' f', Transfer.treaddir l file.fid file.readdirOffset (maxChunk l.msize file.iounit) w =
      (.ok (packed l file.iounit ds k), w') ∧ Cached l file.fid t ds f' w'.server := by
  by_cases hk : k = 0
  · subst hk
    obtain ⟨f, hopened⟩ := h.opened
    obtain ⟨ls, hlist, hds⟩ := h.listing rfl
    obtain ⟨s, f', htrip, hcached⟩ := treaddir_fetch hmin
      { hopened with lookup := (hapart _ _).trans hopened.lookup } hlist hds h.offset
    exact ⟨_, f', htrip, hcached⟩
  · obtain ⟨f, hcached⟩ := h.cached hk
    have hcached' := hcached.mono (hapart w.exchanges w.server)
    exact ⟨_, f, treaddir_cached hmin hcached' hfits h.offset h.inside hk, hcached'⟩

end Exchange

/-! ## One call -/

section Calls

variable {l : Link ν} {file : File} {t : Target ν} {w : World ν} {ds : List Dirent} {k : Nat}
  (hmin : 256 ≤ l.msize.toNat) (hapart : Apart l file.fid) (hfits : Fits l file.iounit ds)
include hmin hapart hfits

theorem readDirFrom_eq (h : Ready l file t ds k w)
    (hnot : ¬enough n entries.length) (hfuel : (ds.drop k).length < fuel) :
    ∃ w' f, readDirFrom l fuel n entries file w =
        some ((entries ++ portion n entries.length (ds.drop k), none),
          { file with readdirOffset := UInt64.ofNat (k + (portion n entries.length (ds.drop k)).length) }, w') ∧
      Cached l file.fid t ds f w'.server := by
  induction fuel generalizing k entries file w with
  | zero => exact absurd hfuel (Nat.not_lt_zero _)
  | succ fuel ih =>
    obtain ⟨w', f, htrip, hcached⟩ := h.treaddir hmin hapart hfits
    obtain ⟨ps, rest, hsplit, hpacked, hend⟩ := packed_eq (k := k) hfits
    have hcookies : CookiesFrom k ps := (hsplit ▸ hfits.cookies.drop k).left
    have hnot' : ¬(0 < n ∧ n ≤ (entries.length : Int)) := hnot
    rw [readDirFrom, if_neg hnot', htrip]
    simp only [hpacked, direntBytes_eq_nil]
    by_cases hps : ps = []
    · -- the end of the listing
      rw [if_pos hps, hsplit, hps, hend hps, append_nil, portion_nil, append_nil]
      refine ⟨w', f, ?_, hcached⟩
      rw [length_nil, Nat.add_zero, ← h.offset]
    · have hnames : ∀ d ∈ ps, d.name.length ≤ 0xFFFF := fun d hd =>
        hfits.names d (mem_of_mem_drop (hsplit ▸ mem_append_left _ hd))
      rw [if_neg hps, parseDirents_bytes hnames]
      obtain ⟨d, ps', rfl⟩ := exists_cons_of_ne_nil hps
      simp only
      rw [h.offset, collect_eq hcookies hnot]
      by_cases henough : enough n (entries.length + (d :: ps').length)
      · have hlen : (entries ++ portion n entries.length (d :: ps')).length = n.toNat := by
          rw [length_append, portion_length_of_enough hnot henough]
        simp only [decide_eq_true henough]
        rw [hsplit, portion_append_left henough, take_of_length_le (Nat.le_of_eq hlen)]
        exact ⟨w', f, rfl, hcached⟩
      · -- all entries of the response are taken, and the cursor is after them
        generalize hps' : d :: ps' = ps at *
        have hall : portion n entries.length ps = ps := by
          have := portion_append henough []
          rwa [append_nil, portion_nil, append_nil] at this
        have hlen : (ds.drop k).length = ps.length + rest.length := by rw [hsplit, length_append]
        have hpos : 0 < ps.length := length_pos_of_ne_nil hps
        have hinside : k + ps.length ≤ ds.length := by
          rw [length_drop] at hlen
          omega
        have hrest : ds.drop (k + ps.length) = rest := by rw [← drop_drop, hsplit, drop_left]
        have hadvance : ¬UInt64.ofNat (k + ps.length) ≤ UInt64.ofNat k := by
          rw [UInt64.not_le, UInt64.lt_iff_toNat_lt, toNat_ofNat h.inside hfits.length,
            toNat_ofNat hinside hfits.length]
          omega
        have hready : Ready l { file with readdirOffset := UInt64.ofNat (k + ps.length) } t ds (k + ps.length) w' :=
          ⟨rfl, hinside, ⟨f, hcached.toOpened⟩, fun _ => ⟨f, hcached⟩, fun h0 => absurd h0 (by omega)⟩
        have hmore : ¬enough n (entries ++ ps).length := by rwa [length_append]
        obtain ⟨w'', f'', heq, hcached''⟩ := @ih { file with readdirOffset := UInt64.ofNat (k + ps.length) } w' _ hapart
          hfits _ hready hmore (by rw [hrest]; omega)
        simp only [decide_eq_false henough, hall]
        rw [if_neg hadvance, heq, hrest, hsplit, portion_append henough, length_append, append_assoc]
        refine ⟨w'', f'', ?_, hcached''⟩
        rw [length_append, Nat.add_assoc]

theorem readDirs_eq (hempty : ds = [] → ∀ calls, l.cfg.fs.readdir calls t = .ok [])
    (h : Ready l file t ds k w) (hfuel : ds.length < fuel) :
    ∃ file' w', readDirs l fuel ns file w = some ((portions ns (ds.drop k)).map (·, none), file', w') := by
  induction ns generalizing k file w with
  | nil => exact ⟨file, w, rfl⟩
  | cons n ns ih =>
    have hnot : ¬enough n ([] : List Dirent).length := fun hn => by
      obtain ⟨h0, hle⟩ := hn
      rw [length_nil] at hle
      omega
    have hrounds : (ds.drop k).length < fuel := by
      rw [length_drop]
      omega
    obtain ⟨w', f, heq, hcached⟩ := readDirFrom_eq hmin hapart hfits h hnot hrounds
    rw [length_nil, nil_append] at heq
    have hdrop : (ds.drop k).drop (portion n 0 (ds.drop k)).length = ds.drop (k + (portion n 0 (ds.drop k)).length) :=
      drop_drop
    have hlen := (portion_isPrefix n 0 (ds.drop k)).length_le
    generalize hps : portion n 0 (ds.drop k) = ps at *
    have hready : Ready l { file with readdirOffset := UInt64.ofNat (k + ps.length) } t ds (k + ps.length) w' := by
      refine ⟨rfl, ?_, ⟨f, hcached.toOpened⟩, fun _ => ⟨f, hcached⟩, fun h0 => ?_⟩
      · have := h.inside
        rw [length_drop] at hlen
        omega
      · -- nothing was returned, so there is nothing
        obtain ⟨rfl, hnil⟩ : k = 0 ∧ ps.length = 0 := by omega
        rw [length_eq_zero_iff.1 hnil, drop_zero] at hps
        have hds : ds = [] := by
          cases ds with
          | nil => rfl
          | cons d ds =>
            have hcons := portion_cons (m := 0) hnot d ds
            rw [hcons] at hps
            cases hps
        subst hds
        exact ⟨[], hempty rfl _, rfl⟩
    obtain ⟨file', w'', hrest⟩ := @ih { file with readdirOffset := UInt64.ofNat (k + ps.length) } w' _ hapart hfits hready
    refine ⟨file', w'', ?_⟩
    rw [readDirs, readDir, heq]
    simp only [Option.bind_eq_bind, Option.bind_some, hrest, portions, hps, hdrop]
    rfl

end Calls

/-! ## Sequences of calls -/

/-- An entry without the cookie, which the server sets. -/
def entry (d : Dirent) : QID × UInt8 × Bytes := (d.qid, d.type, d.name)

theorem withCookies_length (ls : List Dirent) : (withCookies ls).length = ls.length := length_mapIdx

theorem withCookies_cookies (ls : List Dirent) : CookiesFrom 0 (withCookies ls) := by
  intro i d hd
  rw [withCookies, getElem?_mapIdx] at hd
  obtain ⟨d', -, rfl⟩ := Option.map_eq_some_iff.1 hd
  rw [Nat.zero_add]

theorem mem_withCookies (h : d ∈ withCookies ls) : ∃ d' ∈ ls, entry d' = entry d := by
  obtain ⟨i, hi⟩ := getElem?_of_mem h
  rw [withCookies, getElem?_mapIdx] at hi
  obtain ⟨d', hd', rfl⟩ := Option.map_eq_some_iff.1 hi
  exact ⟨d', mem_of_getElem? hd', rfl⟩

/-- **A sequence of `ReadDir` calls lists the directory**, which does not change, though `Readdir` may list it in another
order each time.  The calls return consecutive runs of the first listing, each with as many entries as the call asks for
and there are left. -/
theorem readDir_listing (l : Link ν) (file : File) (w : World ν) (t : Target ν) (f : FidState ν)
    (dir : List (QID × UInt8 × Bytes)) (hmin : 256 ≤ l.msize.toNat) (hapart : Apart l file.fid)
    (hopened : Opened l file.fid t f w.server) (hstart : file.readdirOffset = 0)
    (hdir : ∀ calls, ∃ ls, l.cfg.fs.readdir calls t = .ok ls ∧ (ls.map entry).Perm dir)
    (hnames : ∀ e ∈ dir, e.2.2.length ≤ 65535)
    (hsizes : ∀ e ∈ dir, 24 + e.2.2.length ≤ (maxChunk l.msize file.iounit).toNat) (hlength : dir.length < 2 ^ 63)
    (ns : List Int) :
    ∃ ls, ∃ parts : List (List Dirent), l.cfg.fs.readdir (l.others w.exchanges w.server).calls t = .ok ls ∧
      (∀ fuel, dir.length < fuel → ∃ file' w', readDirs l fuel ns file w = some (parts.map (·, none), file', w')) ∧
      parts.flatten <+: withCookies ls ∧ parts.length = ns.length ∧
      ∀ (i : Nat) n es, ns[i]? = some n → parts[i]? = some es →
        es.length = if 0 < n then min n.toNat (ls.length - (parts.take i).flatten.length)
          else ls.length - (parts.take i).flatten.length := by
  obtain ⟨ls, hls, hperm⟩ := hdir (l.others w.exchanges w.server).calls
  have hlen : ls.length = dir.length := by rw [← hperm.length_eq, length_map]
  have hmem {d : Dirent} (hd : d ∈ withCookies ls) : entry d ∈ dir := by
    obtain ⟨d', hd', heq⟩ := mem_withCookies hd
    rw [← heq]
    exact hperm.mem_iff.1 (mem_map_of_mem hd')
  have hfits : Fits l file.iounit (withCookies ls) :=
    { names := fun d hd => hnames _ (hmem hd)
      sizes := fun d hd => hsizes _ (hmem hd)
      cookies := withCookies_cookies ls
      length := by rw [withCookies_length, hlen]; exact hlength }
  have hready : Ready l file t (withCookies ls) 0 w :=
    ⟨hstart, Nat.zero_le _, ⟨f, hopened⟩, fun h0 => absurd rfl h0, fun _ => ⟨ls, hls, rfl⟩⟩
  have hempty : withCookies ls = [] → ∀ calls, l.cfg.fs.readdir calls t = .ok [] := by
    intro hnil calls
    have hdir0 : dir = [] := by
      rw [← length_eq_zero_iff, ← hlen, ← withCookies_length, hnil, length_nil]
    obtain ⟨ls', hls', hperm'⟩ := hdir calls
    rw [hdir0] at hperm'
    rw [hls', map_eq_nil_iff.1 hperm'.eq_nil]
  refine ⟨ls, portions ns (withCookies ls), hls, fun fuel hfuel => ?_, portions_isPrefix _ _, portions_length _ _, ?_⟩
  · have hrounds : (withCookies ls).length < fuel := by rwa [withCookies_length, hlen]
    exact readDirs_eq hmin hapart hfits hempty hready hrounds
  · intro i n es hn hes
    rw [portions_get hn hes, withCookies_length]
    rfl

/-! ### A directory of two entries -/

def entryA : Dirent := ⟨⟨0, 0, 7⟩, 0, 8, [97]⟩
def entryB : Dirent := ⟨⟨128, 0, 9⟩, 0, 4, [98, 98]⟩

/-- A file system with one directory, which lists its two entries in either order. -/
def twoEntries : Server.DataPath.Fs Unit :=
  { Server.DataPath.Fs.bare Unit with
    implements := fun _ i => i = .nodeReaddirer
    readdir := fun calls _ => if calls = [] then .ok [entryB, entryA] else .ok [entryA, entryB] }

def twoLink : Link Unit := ⟨⟨⟨256, .l⟩, 0, twoEntries⟩, 1, fun _ s => s⟩

def twoWorld : World Unit := ⟨⟨AList.singleton 3 { node := (), state := .opened }, []⟩, 0⟩

/-- With an iounit of 40 a response has room for one entry. -/
theorem readDir_listing_two : ∃ parts : List (List Dirent),
    (∃ file' w', readDirs twoLink 3 [1, 5, 0] ⟨3, 40, 0⟩ twoWorld = some (parts.map (·, none), file', w')) ∧
      parts.flatten <+: withCookies [entryB, entryA] ∧ parts.length = 3 := by
  obtain ⟨ls, parts, hls, hrun, hpre, hlen, -⟩ := readDir_listing twoLink ⟨3, 40, 0⟩ twoWorld ⟨(), false⟩
    { node := (), state := .opened } [entry entryA, entry entryB] (by decide) (fun _ _ => rfl) ⟨rfl, rfl, rfl⟩ rfl
    (by
      intro calls
      by_cases hcalls : calls = []
      · exact ⟨[entryB, entryA], by simp [twoLink, twoEntries, hcalls], by decide⟩
      · exact ⟨[entryA, entryB], by simp [twoLink, twoEntries, hcalls], by decide⟩)
    (by decide) (by decide) (by decide) [1, 5, 0]
  obtain rfl : [entryB, entryA] = ls := Except.ok.inj hls
  exact ⟨parts, hrun 3 (by decide), hpre, hlen⟩

end NineP.Client.Transfer
