import NineP.Client.Transfer

/-!
# Extended attributes from end to end

`XattrGet`, `XattrList`, `XattrSet` and `XattrRemove` against a server whose nodes have the simple xattr interfaces, with
no other requests in between.
-/

namespace NineP.Client.Transfer

open Codec Proto List
open Server.DataPath (FidState serve handleRead handleWrite handleClunk handleClone handleXattrwalk
  handleXattrcreate addXattrReadFid addFid listBytes committed)
open Server.Replies (clampCount_of_le)

theorem toNat_length {data : Bytes} (hmax : data.length ≤ maxDataSize) :
    (UInt64.ofNat data.length).toNat = data.length := by
  rw [UInt64.toNat_ofNat', Nat.mod_eq_of_lt (Nat.lt_of_le_of_lt hmax (by decide))]

variable {ν : Type} {l : Link ν} {w : World ν} {fid newFid : Fid} {data : Bytes} {f : FidState ν}

/-- There are no other requests. -/
def Alone (l : Link ν) : Prop := ∀ i s, l.others i s = s

section Exchanges

variable {s : State ν} {msize : UInt32} {offset size : UInt64} {name : Bytes}

theorem xattrChunk_toNat (hmin : 256 ≤ msize.toNat) : (xattrChunk msize).toNat = msize.toNat - 24 := by
  have hlt : ¬msize ≤ ioFrameOverhead := by
    rw [UInt32.le_iff_toNat_le]
    show ¬msize.toNat ≤ 24
    omega
  rw [xattrChunk, if_neg hlt]
  exact UInt32.toNat_sub_of_le _ _ (UInt32.le_iff_toNat_le.2 (by show 24 ≤ _; omega))

theorem xattrChunk_ne_zero (hmin : 256 ≤ msize.toNat) : xattrChunk msize ≠ 0 := by
  intro hzero
  have hchunk := xattrChunk_toNat hmin
  have h0 : (0 : UInt32).toNat = 0 := rfl
  rw [hzero] at hchunk
  omega

variable (hmin : 256 ≤ l.msize.toNat) (halone : Alone l)
include hmin halone

theorem cleanupFid_ok (hserve : handleClunk l.cfg w.server ⟨fid⟩ = (.base (.rclunk {}), s)) :
    cleanupFid l fid w = (.ok (), ⟨s, w.exchanges + 1⟩) := by
  refine rtrip_ok (.base (.rclunk {})) ?_ (by rw [halone]; exact hserve) ?_ rfl nofun
  · exact P9l.carry_eq (P9l.tclunk_body _) trivial (by omega)
  · exact P9l.carry_eq (P9l.rclunk_body _) trivial (by omega)

theorem tread_ok {count : UInt32} (hcount : count.toNat ≤ l.msize.toNat - 24) (hdata : data.length ≤ count.toNat)
    (hmax : data.length ≤ maxDataSize)
    (hserve : handleRead l.cfg w.server ⟨fid, offset, count⟩ = (.base (.rread ⟨data⟩), s)) :
    tread l fid offset count w = (.ok data, ⟨s, w.exchanges + 1⟩) := by
  have htrip : rtrip l typeRread pickRread (.base (.tread ⟨fid, offset, count⟩)) w =
      (.ok data, ⟨s, w.exchanges + 1⟩) := by
    refine rtrip_ok (.base (.rread ⟨data⟩)) ?_ (by rw [halone]; exact hserve) ?_ rfl nofun
    · exact P9l.carry_eq (P9l.tread_body _) trivial (by omega)
    · exact P9l.carry_eq (P9l.rread_body hmax) trivial (by simp only; omega)
  rw [tread, bind_ok htrip, if_neg (Nat.not_lt.2 hdata)]
  rfl

theorem twrite_ok (hdata : data.length ≤ l.msize.toNat - 24) (hmax : data.length ≤ maxDataSize)
    (hserve : handleWrite l.cfg w.server ⟨fid, offset, data⟩ = (.base (.rwrite ⟨UInt32.ofNat data.length⟩), s)) :
    twrite l fid offset data w = (.ok (UInt32.ofNat data.length), ⟨s, w.exchanges + 1⟩) := by
  have htrip : rtrip l typeRwrite pickRwrite (.base (.twrite ⟨fid, offset, data⟩)) w =
      (.ok (UInt32.ofNat data.length), ⟨s, w.exchanges + 1⟩) := by
    refine rtrip_ok (.base (.rwrite ⟨UInt32.ofNat data.length⟩)) ?_ (by rw [halone]; exact hserve) ?_ rfl nofun
    · exact P9l.carry_eq (P9l.twrite_body hmax) trivial (by simp only; omega)
    · exact P9l.carry_eq (P9l.rwrite_body _) trivial (by omega)
  have hle : ¬(UInt32.ofNat data.length).toNat > data.length := by
    rw [UInt32.toNat_ofNat']
    exact Nat.not_lt.2 (Nat.mod_le _ _)
  rw [twrite, bind_ok htrip, if_neg hle]
  rfl

theorem twalk_ok (hserve : handleClone l.cfg w.server fid newFid = (.base (.rwalk ⟨[]⟩), s)) :
    twalk l fid newFid [] w = (.ok [], ⟨s, w.exchanges + 1⟩) := by
  refine rtrip_ok (.base (.rwalk ⟨[]⟩)) ?_ (by rw [halone]; exact hserve) ?_ rfl nofun
  · exact P9l.carry_eq (P9l.twalk_body fid newFid) trivial (by omega)
  · exact P9l.carry_eq P9l.rwalk_body trivial (by omega)

omit hmin in
theorem txattrwalk_ok (hname : name.length ≤ maxStringLen) (hframe : 17 + name.length ≤ l.msize.toNat)
    (hserve : handleXattrwalk l.cfg w.server ⟨fid, newFid, name⟩ = (.rxattrwalk ⟨size⟩, s)) :
    txattrwalk l fid newFid name w = (.ok size, ⟨s, w.exchanges + 1⟩) := by
  refine rtrip_ok (.rxattrwalk ⟨size⟩) ?_ (by rw [halone]; exact hserve) ?_ rfl nofun
  · exact P9l.carry_eq (P9l.txattrwalk_body hname) trivial (by simp only; omega)
  · exact P9l.carry_eq (P9l.rxattrwalk_body _) trivial (by omega)

omit hmin in
theorem txattrcreate_ok (hname : name.length ≤ maxStringLen)
    (hframe : 25 + name.length ≤ l.msize.toNat)
    (hserve : handleXattrcreate l.cfg w.server ⟨fid, name, size, flags⟩ = (.rxattrcreate {}, s)) :
    txattrcreate l fid name size flags w = (.ok (), ⟨s, w.exchanges + 1⟩) := by
  refine rtrip_ok (.rxattrcreate {}) ?_ (by rw [halone]; exact hserve) ?_ rfl nofun
  · exact P9l.carry_eq (P9l.txattrcreate_body hname) trivial (by simp only; omega)
  · exact P9l.carry_eq (P9l.rxattrcreate_body _) trivial (by omega)

end Exchanges

/-! ## Reading -/

theorem want_toNat (chunk : UInt32) (hlt : remaining < 2 ^ 32) :
    (if chunk.toNat > remaining then UInt32.ofNat remaining else chunk).toNat = min chunk.toNat remaining := by
  split
  · rw [UInt32.toNat_ofNat', Nat.mod_eq_of_lt hlt]
    omega
  · omega

section Reading

variable (hmin : 256 ≤ l.msize.toNat) (halone : Alone l)
include hmin halone

theorem readXattrFrom_eq (hlookup : w.server.fids.lookup fid = some f) (hstate : f.state = .xattrRead)
    (hdata : f.xattrData = data) (hmax : data.length ≤ maxDataSize) (hj : j ≤ data.length)
    (hfuel : data.length - j ≤ fuel) :
    ∃ k, readXattrFrom l fid data.length (xattrChunk l.msize) fuel (data.take j) w = (.ok data, ⟨w.server, k⟩) := by
  induction fuel generalizing j w with
  | zero =>
    obtain rfl : j = data.length := by omega
    rw [take_length]
    exact ⟨w.exchanges, rfl⟩
  | succ fuel ih =>
    have hlen : (data.take j).length = j := length_take_of_le hj
    rw [readXattrFrom, hlen]
    by_cases hend : j < data.length
    · have hremaining : data.length - j < 2 ^ 32 := Nat.lt_of_le_of_lt (Nat.sub_le _ _) (Nat.lt_of_le_of_lt hmax (by decide))
      have hwant := want_toNat (xattrChunk l.msize) hremaining
      have hchunk := xattrChunk_toNat hmin
      rw [if_pos hend]
      generalize (if (xattrChunk l.msize).toNat > data.length - j then UInt32.ofNat (data.length - j)
        else xattrChunk l.msize) = want at *
      have hread : ((data.drop j).take want.toNat).length = want.toNat := by
        rw [length_take, length_drop]
        omega
      have hserve : handleRead l.cfg w.server ⟨fid, UInt64.ofNat j, want⟩ =
          (.base (.rread ⟨(data.drop j).take want.toNat⟩), w.server) := by
        have hoff : (UInt64.ofNat j).toNat = j := by
          rw [UInt64.toNat_ofNat', Nat.mod_eq_of_lt (Nat.lt_trans hend (Nat.lt_of_le_of_lt hmax (by decide)))]
        unfold handleRead
        rw [hlookup]
        simp only [hoff, hdata]
        rw [if_pos hstate, if_neg (Nat.not_le.2 hend), clampCount_of_le hmin (by show _ ≤ l.msize.toNat - 11; omega)]
      have htread := tread_ok hmin halone (by omega) (Nat.le_of_eq hread) (by omega) hserve
      rw [bind_ok (attempt_ok htread)]
      simp only [hread]
      rw [if_neg (by omega), if_neg (by omega), ← take_add]
      exact ih (w := ⟨w.server, w.exchanges + 1⟩) (j := j + want.toNat) hlookup (by omega) (by omega)
    · obtain rfl : j = data.length := by omega
      rw [if_neg hend, take_length]
      exact ⟨w.exchanges, rfl⟩

theorem cleanupFid_read (hlookup : w.server.fids.lookup fid = some f) (hstate : f.state ≠ .xattrWrite) :
    cleanupFid l fid w = (.ok (), ⟨{ w.server with fids := w.server.fids.erase fid }, w.exchanges + 1⟩) := by
  refine cleanupFid_ok hmin halone ?_
  unfold handleClunk
  rw [hlookup]
  simp only
  rw [if_neg hstate]

/-- **Reading an attribute**: `data` is what the server has put into the fid. -/
theorem twoPhaseXattrRead_eq {name : Bytes} {s : State ν} (hname : name.length ≤ maxStringLen)
    (hframe : 17 + name.length ≤ l.msize.toNat) (hmax : data.length ≤ maxDataSize)
    (hserve : handleXattrwalk l.cfg w.server ⟨fid, newFid, name⟩ = (.rxattrwalk ⟨UInt64.ofNat data.length⟩, s))
    (hlookup : s.fids.lookup newFid = some f) (hstate : f.state = .xattrRead) (hdata : f.xattrData = data) :
    ∃ w', twoPhaseXattrRead l fid newFid name w = (.ok data, w') ∧ w'.server.calls = s.calls := by
  have hsize := toNat_length hmax
  have hnot : f.state ≠ .xattrWrite := by
    rw [hstate]
    decide
  rw [twoPhaseXattrRead, bind_ok (txattrwalk_ok halone hname hframe hserve), hsize, if_neg (Nat.not_lt.2 hmax)]
  by_cases h0 : UInt64.ofNat data.length = 0
  · have hnil : data = [] := by
      rw [h0] at hsize
      exact length_eq_zero_iff.1 hsize.symm
    rw [if_pos h0, bind_ok (cleanupFid_read hmin halone hlookup hnot), hnil]
    exact ⟨_, rfl, rfl⟩
  · obtain ⟨k, hread⟩ := readXattrFrom_eq (w := ⟨s, w.exchanges + 1⟩) (j := 0) hmin halone hlookup hstate hdata hmax
      (Nat.zero_le _) (Nat.le_refl _)
    rw [Nat.sub_zero, take_zero] at hread
    rw [if_neg h0, if_neg (xattrChunk_ne_zero hmin), bind_ok hread, bind_ok (cleanupFid_read (w := ⟨s, k⟩) hmin halone hlookup hnot)]
    exact ⟨_, rfl, rfl⟩

end Reading

theorem splitNul_listBytes (hnames : ∀ a ∈ names, 0 ∉ a) :
    splitNul (listBytes names) = names ++ [[]] := by
  induction names with
  | nil => rfl
  | cons a names ih =>
    obtain ⟨ha, hnames⟩ := forall_mem_cons.1 hnames
    have hcons : listBytes (a :: names) = a ++ 0 :: listBytes names := by simp [listBytes]
    have hfirst : ∀ x ∈ a, (x == 0) = false := by
      intro x hx
      rw [beq_eq_false_iff_ne]
      rintro rfl
      exact ha hx
    rw [hcons, splitNul, List.splitOn, splitOnP_append_cons_of_forall_mem hfirst 0 rfl]
    exact congrArg (a :: ·) (ih hnames)

/-! ## Writing -/

section Writing

variable (hmin : 256 ≤ l.msize.toNat) (halone : Alone l)
include hmin halone

theorem writeXattrFrom_eq (hlookup : w.server.fids.lookup fid = some f) (hstate : f.state = .xattrWrite)
    (hwriter : f.xattrWriter = false) (hsize : f.xattrSize.toNat = data.length) (hmax : data.length ≤ maxDataSize)
    {fuel j : Nat} (hdata : f.xattrData = data.take j) (hj : j ≤ data.length) (hfuel : data.length - j ≤ fuel) :
    ∃ w', writeXattrFrom l fid data (xattrChunk l.msize) fuel j w = (.ok (), w') ∧
      w'.server.fids.lookup fid = some { f with xattrData := data } ∧ w'.server.calls = w.server.calls := by
  induction fuel generalizing j w f with
  | zero =>
    obtain rfl : j = data.length := by omega
    rw [take_length] at hdata
    exact ⟨w, rfl, by rw [hlookup, ← hdata], rfl⟩
  | succ fuel ih =>
    rw [writeXattrFrom]
    by_cases hend : j < data.length
    · have hchunk := xattrChunk_toNat hmin
      rw [if_pos hend]
      generalize hstop : min (j + (xattrChunk l.msize).toNat) data.length = stop
      have hpiece : ((data.take stop).drop j).length = stop - j := by
        rw [length_drop, length_take_of_le (by omega)]
      have hgrown : f.xattrData ++ (data.take stop).drop j = data.take stop := by
        have := take_append_drop j (data.take stop)
        rwa [take_take, Nat.min_eq_left (by omega), ← hdata] at this
      have hserve : handleWrite l.cfg w.server ⟨fid, UInt64.ofNat j, (data.take stop).drop j⟩ =
          (.base (.rwrite ⟨UInt32.ofNat ((data.take stop).drop j).length⟩),
            w.server.set fid { f with xattrData := data.take stop }) := by
        unfold handleWrite
        rw [hlookup]
        simp only
        rw [if_pos hstate, if_neg (by simp [hwriter]), if_neg, hgrown]
        rw [hsize, hpiece, hdata, length_take_of_le hj]
        omega
      have htwrite := twrite_ok hmin halone (by omega) (by omega) hserve
      have hcount : (UInt32.ofNat ((data.take stop).drop j).length).toNat = stop - j := by
        rw [hpiece, UInt32.toNat_ofNat', Nat.mod_eq_of_lt]
        have : maxDataSize < 2 ^ 32 := by decide
        omega
      have hne : UInt32.ofNat ((data.take stop).drop j).length ≠ 0 := by
        intro hzero
        rw [hzero] at hcount
        have h0 : (0 : UInt32).toNat = 0 := rfl
        omega
      rw [bind_ok (attempt_ok htwrite)]
      simp only
      rw [if_neg hne, hcount, show j + (stop - j) = stop by omega]
      exact ih (w := ⟨w.server.set fid { f with xattrData := data.take stop }, w.exchanges + 1⟩)
        (AList.lookup_insert _) hstate hwriter hsize rfl (by omega) (by omega)
    · obtain rfl : j = data.length := by omega
      rw [take_length] at hdata
      rw [if_neg hend]
      exact ⟨w, rfl, by rw [hlookup, ← hdata], rfl⟩

/-- The fid of a clone that `Txattrcreate` has made an xattr-write fid. -/
def writeFid (n : ν) (name data : Bytes) (size : UInt64) (flags : UInt32) : FidState ν :=
  { node := n, state := .xattrWrite, xattrNode := n, xattrName := name, xattrSize := size, xattrFlags := flags,
    xattrData := data }

/-- **Writing an attribute**: everything but the commit, which is left to the `Tclunk`. -/
theorem xattrSet_eq {name : Bytes} (data : Bytes) (flags : UInt32) (hname : name.length ≤ maxStringLen)
    (hframe : 25 + name.length ≤ l.msize.toNat) (hmax : data.length ≤ maxDataSize)
    (hmsize : data.length ≤ l.msize.toNat) (hlookup : w.server.fids.lookup fid = some f)
    (hfree : w.server.fids.lookup newFid = none)
    (hroom : ¬(0 < l.cfg.maxFids ∧ l.cfg.maxFids ≤ w.server.fids.entries.length))
    (hraw : l.cfg.fs.implements f.node .rawXattrer = false)
    (hremover : l.cfg.fs.implements f.node .nodeXattrRemover = true)
    (hsetter : l.cfg.fs.implements f.node .nodeXattrSetter = true) :
    ∃ w' : World ν, xattrSet l fid newFid name data flags w = cleanupFid l newFid w' ∧
      w'.server.fids.lookup newFid = some (writeFid f.node name data (UInt64.ofNat data.length) flags) ∧
      w'.server.calls = w.server.calls := by
  have hne : fid ≠ newFid := by
    rintro rfl
    rw [hlookup] at hfree
    cases hfree
  have hsize := toNat_length hmax
  have hclone : handleClone l.cfg w.server fid newFid =
      (.base (.rwalk ⟨[]⟩), w.server.set newFid { node := f.node, state := .allocated }) := by
    unfold handleClone
    rw [hlookup]
    simp only
    rw [if_neg hne, addFid, if_neg hroom, hfree]
    rfl
  have hcreate : handleXattrcreate l.cfg (w.server.set newFid { node := f.node, state := .allocated })
      ⟨newFid, name, UInt64.ofNat data.length, flags⟩ =
      (.rxattrcreate {}, (w.server.set newFid { node := f.node, state := .allocated }).set newFid
        (writeFid f.node name [] (UInt64.ofNat data.length) flags)) := by
    have hmsize' : ¬data.length > l.cfg.params.msize.toNat := Nat.not_lt.2 hmsize
    unfold handleXattrcreate
    rw [show (w.server.set newFid { node := f.node, state := .allocated }).fids.lookup newFid = _ from
      AList.lookup_insert _]
    simp only [hraw, hremover, hsetter, hsize]
    rw [if_neg (by simp), if_neg hmsize', if_neg (by simp), if_neg (by simp), if_neg (by simp)]
    rfl
  obtain ⟨w', hwrite, hlookup', hcalls⟩ := writeXattrFrom_eq
    (w := ⟨(w.server.set newFid { node := f.node, state := .allocated }).set newFid
      (writeFid f.node name [] (UInt64.ofNat data.length) flags), w.exchanges + 1 + 1⟩) (j := 0) hmin halone
    (AList.lookup_insert _) rfl rfl hsize hmax rfl (Nat.zero_le _) (Nat.le_refl _)
  refine ⟨w', ?_, hlookup', hcalls⟩
  rw [Nat.sub_zero] at hwrite
  have htxattrcreate : txattrcreate l newFid name (UInt64.ofNat data.length) flags
      ⟨w.server.set newFid { node := f.node, state := .allocated }, w.exchanges + 1⟩ = (.ok (), ⟨_, w.exchanges + 1 + 1⟩) :=
    txattrcreate_ok halone hname hframe hcreate
  rw [xattrSet, bind_ok (twalk_ok hmin halone hclone), bind_ok (attempt_ok htxattrcreate)]
  simp only
  rw [if_neg (fun h => xattrChunk_ne_zero hmin h.1), bind_ok hwrite]

end Writing

/-! ## The operations -/

/-- The node of the fid has the simple xattr interfaces, and the connection has room for one more fid. -/
structure Simple (l : Link ν) (w : World ν) (fid newFid : Fid) (f : FidState ν) : Prop where
  lookup : w.server.fids.lookup fid = some f
  free : w.server.fids.lookup newFid = none
  room : ¬(0 < l.cfg.maxFids ∧ l.cfg.maxFids ≤ w.server.fids.entries.length)
  raw : l.cfg.fs.implements f.node .rawXattrer = false
  getter : l.cfg.fs.implements f.node .nodeXattrGetter = true
  lister : l.cfg.fs.implements f.node .nodeXattrLister = true
  setter : l.cfg.fs.implements f.node .nodeXattrSetter = true
  remover : l.cfg.fs.implements f.node .nodeXattrRemover = true

/-- The fid that a `Txattrwalk` makes. -/
def readFid (n : ν) (name data : Bytes) : FidState ν :=
  { node := n, state := .xattrRead, xattrNode := n, xattrName := name, xattrData := data }

section Operations

variable (hmin : 256 ≤ l.msize.toNat) (halone : Alone l) (h : Simple l w fid newFid f)
include hmin halone h

omit hmin halone in
theorem Simple.addXattrReadFid (c : Call ν) (name data : Bytes) :
    Server.DataPath.addXattrReadFid l.cfg (w.server.call c) newFid f.node name data =
      (.rxattrwalk ⟨UInt64.ofNat data.length⟩, (w.server.call c).set newFid (readFid f.node name data)) := by
  have hadd {g : FidState ν} : addFid l.cfg (w.server.call c) newFid g = .ok ((w.server.call c).set newFid g) := by
    have hfree : (w.server.call c).fids.lookup newFid = none := h.free
    have hroom : ¬(0 < l.cfg.maxFids ∧ l.cfg.maxFids ≤ (w.server.call c).fids.entries.length) := h.room
    rw [addFid, if_neg hroom, hfree]
    rfl
  rw [Server.DataPath.addXattrReadFid, hadd]
  rfl

theorem xattrGet_ok {name v : Bytes} (hne : name ≠ []) (hname : name.length ≤ maxStringLen)
    (hframe : 17 + name.length ≤ l.msize.toNat) (hget : l.cfg.fs.getXattr w.server.calls f.node name = .ok v)
    (hmax : v.length ≤ maxDataSize) :
    ∃ w', xattrGet l fid newFid name w = (.ok v, w') ∧
      w'.server.calls = w.server.calls ++ [.getXattr f.node name] := by
  have hserve : handleXattrwalk l.cfg w.server ⟨fid, newFid, name⟩ = (.rxattrwalk ⟨UInt64.ofNat v.length⟩,
      (w.server.call (.getXattr f.node name)).set newFid (readFid f.node name v)) := by
    unfold handleXattrwalk
    rw [h.lookup]
    simp only [h.raw, h.getter, hget]
    rw [if_neg (by simp), if_neg hne, if_pos trivial]
    exact h.addXattrReadFid _ _ _
  exact twoPhaseXattrRead_eq hmin halone hname hframe hmax hserve (AList.lookup_insert _) rfl rfl

theorem xattrList_ok (hlist : l.cfg.fs.listXattrs w.server.calls f.node = .ok names)
    (hnames : ∀ a ∈ names, a ≠ [] ∧ 0 ∉ a) (hmax : (listBytes names).length ≤ maxDataSize) :
    ∃ w', xattrList l fid newFid w = (.ok names, w') ∧ w'.server.calls = w.server.calls ++ [.listXattrs f.node] := by
  have hserve : handleXattrwalk l.cfg w.server ⟨fid, newFid, []⟩ =
      (.rxattrwalk ⟨UInt64.ofNat (listBytes names).length⟩,
        (w.server.call (.listXattrs f.node)).set newFid (readFid f.node [] (listBytes names))) := by
    unfold handleXattrwalk
    rw [h.lookup]
    simp only [h.raw, h.lister, hlist]
    rw [if_neg (by simp), if_pos trivial, if_pos trivial]
    exact h.addXattrReadFid _ _ _
  obtain ⟨w', hread, hcalls⟩ := twoPhaseXattrRead_eq hmin halone (Nat.zero_le _) (by show 17 + 0 ≤ _; omega) hmax hserve
    (AList.lookup_insert _) rfl rfl
  refine ⟨w', ?_, hcalls⟩
  rw [xattrList, bind_ok hread]
  by_cases h0 : (listBytes names).length = 0
  · have hnil : names = [] := by
      cases names with
      | nil => rfl
      | cons a names => simp [listBytes] at h0
    rw [if_pos h0, hnil]
    rfl
  · rw [if_neg h0, splitNul_listBytes fun a ha => (hnames a ha).2, filter_append,
      filter_eq_self.2 fun a ha => by simpa using (hnames a ha).1]
    simp
    rfl

theorem xattrSet_ok {name data : Bytes} (hname : name.length ≤ maxStringLen)
    (hframe : 25 + name.length ≤ l.msize.toNat) (hpos : 1 ≤ data.length)
    (hmax : data.length ≤ min l.msize.toNat maxDataSize)
    (hset : l.cfg.fs.setXattr w.server.calls f.node name data flags = .ok ()) :
    ∃ w', xattrSet l fid newFid name data flags w = (.ok (), w') ∧
      w'.server.calls = w.server.calls ++ [.setXattr f.node name data flags] := by
  obtain ⟨hmsize, hmax⟩ := Nat.le_min.1 hmax
  obtain ⟨w', heq, hlookup, hcalls⟩ := xattrSet_eq hmin halone data flags hname hframe hmax hmsize h.lookup h.free
    h.room h.raw h.remover h.setter
  have hsize := toNat_length hmax
  have hne : UInt64.ofNat data.length ≠ 0 := by
    intro h0
    rw [h0] at hsize
    have : (0 : UInt64).toNat = 0 := rfl
    omega
  have hserve : handleClunk l.cfg w'.server ⟨newFid⟩ = (.base (.rclunk {}),
      ({ w'.server with fids := w'.server.fids.erase newFid } : State ν).call (.setXattr f.node name data flags)) := by
    unfold handleClunk
    rw [hlookup]
    simp only [writeFid, hcalls, hset, h.setter, hsize]
    rw [if_pos trivial, if_neg (by simp), if_neg hne, if_neg (by simp), if_pos trivial]
    rfl
  rw [heq, cleanupFid_ok hmin halone hserve]
  refine ⟨_, rfl, ?_⟩
  rw [← hcalls]
  rfl

theorem xattrRemove_ok {name : Bytes} (hname : name.length ≤ maxStringLen) (hframe : 25 + name.length ≤ l.msize.toNat)
    (hremove : l.cfg.fs.removeXattr w.server.calls f.node name = .ok ()) :
    ∃ w', xattrRemove l fid newFid name w = (.ok (), w') ∧
      w'.server.calls = w.server.calls ++ [.removeXattr f.node name] := by
  obtain ⟨w', heq, hlookup, hcalls⟩ := xattrSet_eq (w := w) hmin halone [] 0 hname hframe (Nat.zero_le _) (Nat.zero_le _)
    h.lookup h.free h.room h.raw h.remover h.setter
  have hserve : handleClunk l.cfg w'.server ⟨newFid⟩ = (.base (.rclunk {}),
      ({ w'.server with fids := w'.server.fids.erase newFid } : State ν).call (.removeXattr f.node name)) := by
    unfold handleClunk
    rw [hlookup]
    simp only [writeFid, hcalls, hremove, h.remover]
    have h0 : UInt64.ofNat ([] : Bytes).length = 0 := rfl
    rw [if_pos trivial, if_neg (by simp), if_pos h0, if_pos trivial]
    rfl
  rw [xattrRemove, heq, cleanupFid_ok hmin halone hserve]
  refine ⟨_, rfl, ?_⟩
  rw [← hcalls]
  rfl

end Operations

/-- **Extended attributes from end to end.**  Names are such that the frames of the requests fit `msize`. -/
theorem xattr_roundTrip (l : Link ν) (w : World ν) (fid newFid : Fid) (f : FidState ν) (hmin : 256 ≤ l.msize.toNat)
    (halone : Alone l) (h : Simple l w fid newFid f) :
    (∀ name v, name ≠ [] → name.length ≤ maxStringLen → 17 + name.length ≤ l.msize.toNat →
      l.cfg.fs.getXattr w.server.calls f.node name = .ok v → v.length ≤ maxDataSize →
      ∃ w', xattrGet l fid newFid name w = (.ok v, w') ∧
        w'.server.calls = w.server.calls ++ [.getXattr f.node name]) ∧
    (∀ names, l.cfg.fs.listXattrs w.server.calls f.node = .ok names → (∀ a ∈ names, a ≠ [] ∧ 0 ∉ a) →
      (listBytes names).length ≤ maxDataSize →
      ∃ w', xattrList l fid newFid w = (.ok names, w') ∧ w'.server.calls = w.server.calls ++ [.listXattrs f.node]) ∧
    (∀ name data flags, name.length ≤ maxStringLen → 25 + name.length ≤ l.msize.toNat → 1 ≤ data.length →
      data.length ≤ min l.msize.toNat maxDataSize → l.cfg.fs.setXattr w.server.calls f.node name data flags = .ok () →
      ∃ w', xattrSet l fid newFid name data flags w = (.ok (), w') ∧
        w'.server.calls = w.server.calls ++ [.setXattr f.node name data flags]) ∧
    ∀ name, name.length ≤ maxStringLen → 25 + name.length ≤ l.msize.toNat →
      l.cfg.fs.removeXattr w.server.calls f.node name = .ok () →
      ∃ w', xattrRemove l fid newFid name w = (.ok (), w') ∧
        w'.server.calls = w.server.calls ++ [.removeXattr f.node name] :=
  ⟨fun _ _ hne hname hframe hget hmax => xattrGet_ok hmin halone h hne hname hframe hget hmax,
    fun _ hlist hnames hmax => xattrList_ok hmin halone h hlist hnames hmax,
    fun _ _ _ hname hframe hpos hmax hset => xattrSet_ok hmin halone h hname hframe hpos hmax hset,
    fun _ hname hframe hremove => xattrRemove_ok hmin halone h hname hframe hremove⟩

/-- A file system with one file, whose attributes are all `[1, 2, 3]`. -/
def xattrFs : Server.DataPath.Fs Unit :=
  { Server.DataPath.Fs.bare Unit with
    implements := fun _ i => i ≠ .rawXattrer
    getXattr := fun _ _ _ => .ok [1, 2, 3]
    listXattrs := fun _ _ => .ok [[97], [98, 99]]
    setXattr := fun _ _ _ _ _ => .ok ()
    removeXattr := fun _ _ _ => .ok () }

def xattrLink : Link Unit := ⟨⟨⟨256, .l⟩, 2, xattrFs⟩, 1, fun _ s => s⟩

def xattrWorld : World Unit := ⟨⟨AList.singleton 3 { node := (), state := .opened }, []⟩, 0⟩

theorem xattr_roundTrip_sample :
    (∃ w', xattrGet xattrLink 3 4 [97] xattrWorld = (.ok [1, 2, 3], w') ∧ w'.server.calls = [.getXattr () [97]]) ∧
      (∃ w', xattrList xattrLink 3 4 xattrWorld = (.ok [[97], [98, 99]], w') ∧ w'.server.calls = [.listXattrs ()]) ∧
      (∃ w', xattrSet xattrLink 3 4 [97] [5, 6] 1 xattrWorld = (.ok (), w') ∧
        w'.server.calls = [.setXattr () [97] [5, 6] 1]) ∧
      ∃ w', xattrRemove xattrLink 3 4 [97] xattrWorld = (.ok (), w') ∧ w'.server.calls = [.removeXattr () [97]] := by
  obtain ⟨hget, hlist, hset, hremove⟩ := xattr_roundTrip xattrLink xattrWorld 3 4 { node := (), state := .opened }
    (by decide) (fun _ _ => rfl) ⟨rfl, rfl, by decide, rfl, rfl, rfl, rfl, rfl⟩
  exact ⟨hget [97] [1, 2, 3] (by decide) (by decide) (by decide) rfl (by decide),
    hlist [[97], [98, 99]] rfl (by decide) (by decide), hset [97] [5, 6] 1 (by decide) (by decide) (by decide) (by decide) rfl,
    hremove [97] (by decide) (by decide) rfl⟩

end NineP.Client.Transfer
