import NineP.Lib.Slice
import NineP.Proto.P9l.Messages
import NineP.Proto.P9u.Messages

/-!
# Reads into the caller's buffer

`tread` and `readAtZeroCopy` of `client/ops.go`, each with what the read loop (`client/read_loop.go`) does with the frame
that answers its request.  Frames are known by their bytes after the size; a destination may be nil.
-/

namespace NineP.Client.ZeroCopy

open Codec Proto Slices List

/-! ## The read loop -/

/-- The types of the frames that may answer a Tread. -/
inductive Kind
  | rread
  | rlerror
  | rerror
  deriving DecidableEq

def Kind.type : Kind → MessageType
  | .rread => typeRread
  | .rlerror => typeRlerror
  | .rerror => typeRerror

inductive RMsg
  | rread (m : Rread)
  | rlerror (m : P9l.Rlerror)
  | rerror (m : P9u.Rerror)
  deriving DecidableEq

/-- The type of a message. -/
def RMsg.kind : RMsg → Kind
  | .rread _ => .rread
  | .rlerror _ => .rlerror
  | .rerror _ => .rerror

/-- `newRMessage` and `DecodeFrom`; trailing bytes are not looked at. -/
def decode : Kind → Reader RMsg
  | .rread => RMsg.rread <$> Rread.decodeFrom
  | .rlerror => RMsg.rlerror <$> P9l.Rlerror.decodeFrom
  | .rerror => RMsg.rerror <$> P9u.Rerror.decodeFrom

def frame (kind : Kind) (tag : Tag) (body : Bytes) : Bytes := kind.type :: (leBytes 2 tag.toNat ++ body)

/-- What the read loop does with a frame. -/
inductive Handled
  /-- `signalShutdown` -/
  | shutdown
  /-- `rreadSentinelOK`, with `entry.n` -/
  | sentinel (n : Nat)
  | deliver (m : RMsg)
  deriving DecidableEq

/-- The decoded path, with its check of count-prefixed bodies. -/
def readDecoded (kind : Kind) (b : Bytes) : Handled :=
  if kind = .rread ∧ (b.length < 7 ∨ leAt 3 4 b > b.length - 7) then .shutdown
  else
    match decode kind (b.drop 3) with
    | .error _ => .shutdown
    | .ok (m, _) => .deliver m

/-- The read loop on a frame for an entry with this destination, and the destination afterwards. -/
def readLoop (dst : Option Bytes) (kind : Kind) (b : Bytes) : Handled × Option Bytes :=
  match kind, dst with
  | .rread, some dst =>
    if b.length < 7 then (.shutdown, some dst)
    else
      let count := leAt 3 4 b
      if count > maxDataSize then (.shutdown, some dst)
      else if count > dst.length % 2 ^ 32 then (.shutdown, some dst)
      else if count > b.length - 7 then (.shutdown, some dst)
      else (.sentinel count, some (splice dst ((b.drop 7).take count) 0))
  | kind, dst => (readDecoded kind b, dst)

/-! ## The two reads -/

structure ServerError where
  errno : Errno
  msg : Bytes
  deriving DecidableEq

inductive Outcome (α : Type)
  | shutdown
  | server (e : ServerError)
  | unexpected (t : MessageType)
  | ok (a : α)
  deriving DecidableEq

/-- `toError`, for the two error messages. -/
def toError : RMsg → Option ServerError
  | .rlerror m => some ⟨m.ecode, []⟩
  | .rerror m => some ⟨m.errno, m.ename⟩
  | .rread _ => none

/-- `tread`: the data that it returns. -/
def tread (count : UInt32) (kind : Kind) (b : Bytes) : Outcome Bytes :=
  match (readLoop none kind b).1 with
  | .shutdown => .shutdown
  | .sentinel _ => .unexpected typeRread
  | .deliver m =>
    match toError m, m with
    | some e, _ => .server e
    | none, .rread r => if r.data.length > count.toNat then .shutdown else .ok r.data
    | none, _ => .unexpected kind.type

/-- `readAtZeroCopy`: the number of bytes that it returns, and the destination. -/
def readAtZeroCopy (dst : Option Bytes) (kind : Kind) (b : Bytes) : Outcome Nat × Option Bytes :=
  match readLoop dst kind b with
  | (.shutdown, dst) => (.shutdown, dst)
  | (.sentinel n, dst) => (.ok n, dst)
  | (.deliver m, dst) =>
    match toError m with
    | some e => (.server e, dst)
    | none => (.unexpected kind.type, dst)

/-- `len(dst)` -/
def length (dst : Option Bytes) : Nat := (dst.getD []).length

/-- The outcomes are the same: the connection is shut down, the same error, or as many bytes and the same ones. -/
def Same (decoded : Outcome Bytes) (copied : Outcome Nat × Option Bytes) : Prop :=
  match decoded with
  | .shutdown => copied.1 = .shutdown
  | .server e => copied.1 = .server e
  | .unexpected _ => False
  | .ok data => copied.1 = .ok data.length ∧ (copied.2.getD []).take data.length = data

/-! ## Both ways of reading -/

theorem decode_rread (hhead : 7 ≤ b.length) (hbody : leAt 3 4 b ≤ b.length - 7) :
    if leAt 3 4 b > maxDataSize then ∃ e, decode .rread (b.drop 3) = .error e
    else ∃ rest, decode .rread (b.drop 3) = .ok (.rread ⟨(b.drop 7).take (leAt 3 4 b)⟩, rest) := by
  have hcount : (UInt32.ofNat (leAt 3 4 b)).toNat = leAt 3 4 b := UInt32.toNat_ofNat_of_lt' (leAt_lt 3 4 b)
  have hread : readUint32 (b.drop 3) = .ok (UInt32.ofNat (leAt 3 4 b), b.drop 7) := by
    rw [readUint32_ok, hcount]
    exact (leBytes_append_drop (by omega)).symm
  split
  · rename_i hbig
    rcases hdec : decode .rread (b.drop 3) with e | ⟨m, rest⟩
    · exact ⟨e, rfl⟩
    · obtain ⟨r, hr, -⟩ := map_ok.1 hdec
      obtain ⟨data, _, hdata, -⟩ := bind_ok.1 hr
      obtain ⟨count, _, hc, hdata⟩ := bind_ok.1 hdata
      obtain ⟨hmax, -⟩ := failIf_bind_ok.1 hdata
      obtain ⟨rfl, -⟩ := Prod.mk.inj (Except.ok.inj (hread.symm.trans (wrap_ok.1 hc)))
      exact absurd (hcount.symm ▸ hbig) hmax
  · rename_i hsmall
    refine ⟨(b.drop 7).drop (leAt 3 4 b), map_ok.2 ⟨_, bind_ok.2 ⟨_, _, bind_ok.2 ⟨_, _, wrap_ok.2 hread, ?_⟩, rfl⟩, rfl⟩⟩
    refine failIf_bind_ok.2 ⟨hcount.symm ▸ hsmall, wrap_ok.2 ?_⟩
    unfold readData
    split
    · rename_i hzero
      have h0 : leAt 3 4 b = 0 := by rw [← hcount, hzero]; rfl
      rw [h0]
      rfl
    · have hlen : ¬ (UInt32.ofNat (leAt 3 4 b)).toNat > (b.drop 7).length := by
        rw [hcount, length_drop]
        omega
      simp only [if_neg hlen]
      refine wrap_ok.2 (take_ok.2 ⟨(take_append_drop _ _).symm, ?_⟩)
      rw [hcount, length_take, length_drop]
      omega

theorem readDecoded_cases (kind : Kind) (b : Bytes) :
    readDecoded kind b = .shutdown ∨ ∃ m : RMsg, readDecoded kind b = .deliver m ∧ m.kind = kind := by
  unfold readDecoded
  split
  · exact .inl rfl
  · split
    · exact .inl rfl
    · rename_i m rest hdec
      refine .inr ⟨m, rfl, ?_⟩
      cases kind <;> obtain ⟨r, -, rfl⟩ := map_ok.1 hdec <;> rfl

theorem readLoop_eq (h : kind = .rread → dst = none) : readLoop dst kind b = (readDecoded kind b, dst) := by
  cases kind with
  | rread => rw [h rfl]; rfl
  | rlerror | rerror => rfl

theorem same_decoded (h : kind = .rread → dst = none) (count : UInt32) :
    Same (tread count kind b) (readAtZeroCopy dst kind b) ↔ ∀ m, readDecoded kind b ≠ .deliver (.rread m) := by
  unfold tread readAtZeroCopy
  rw [readLoop_eq h, readLoop_eq fun _ => rfl]
  rcases readDecoded_cases kind b with hr | ⟨m, hr, -⟩
  · simp [hr, Same]
  · rw [hr]
    cases m with
    | rread m =>
      simp only [toError]
      split <;> simp [Same]
    | rlerror m | rerror m => simp [toError, Same]

theorem same_copied {dst : Bytes} {count : UInt32} (hcount : count.toNat = dst.length) :
    Same (tread count .rread b) (readAtZeroCopy (some dst) .rread b) := by
  have hlen : dst.length % 2 ^ 32 = dst.length := Nat.mod_eq_of_lt (hcount ▸ count.toNat_lt)
  unfold tread readAtZeroCopy readLoop readDecoded
  simp only [true_and, hlen]
  by_cases hhead : b.length < 7
  · simp [hhead, Same]
  · by_cases hbody : leAt 3 4 b > b.length - 7
    · -- the copying side may object to the count first
      simp only [hhead, hbody, or_true, if_true, ite_self]
      rfl
    · have hdec := decode_rread (Nat.not_lt.1 hhead) (Nat.not_lt.1 hbody)
      simp only [hhead, hbody, or_false, if_false]
      by_cases hbig : leAt 3 4 b > maxDataSize
      · rw [if_pos hbig] at hdec ⊢
        obtain ⟨e, he⟩ := hdec
        rw [he]
        rfl
      · rw [if_neg hbig] at hdec ⊢
        obtain ⟨rest, he⟩ := hdec
        have hdata : ((b.drop 7).take (leAt 3 4 b)).length = leAt 3 4 b := by
          rw [length_take, length_drop]
          omega
        rw [he]
        simp only [toError, hdata, hcount]
        split
        · rfl
        · refine ⟨by rw [hdata], ?_⟩
          simp only [Option.getD_some, splice, take_zero, nil_append]
          exact take_left

/-- **Reading into a buffer is reading.**  Whatever the body of an Rread, Rlerror or Rerror, the two reads have the same
outcome exactly if the destination is not nil or no Rread is decoded. -/
theorem readAtZeroCopy_tread (dst : Option Bytes) (count : UInt32) (kind : Kind) (tag : Tag) (body : Bytes)
    (hcount : count.toNat = length dst) :
    Same (tread count kind (frame kind tag body)) (readAtZeroCopy dst kind (frame kind tag body)) ↔
      (dst ≠ none ∨ ∀ m, readDecoded kind (frame kind tag body) ≠ .deliver (.rread m)) := by
  cases dst with
  | none =>
    rw [same_decoded fun _ => rfl]
    simp
  | some dst =>
    refine iff_of_true ?_ (.inl nofun)
    by_cases hkind : kind = .rread
    · subst hkind
      exact same_copied hcount
    · refine (same_decoded (fun h => absurd h hkind) count).2 fun m hm => ?_
      rcases readDecoded_cases kind (frame kind tag body) with hr | ⟨m', hr, hk⟩
      · exact nomatch hr.symm.trans hm
      · obtain rfl := Handled.deliver.inj (hr.symm.trans hm)
        exact hkind hk.symm

/-- Two bytes are read into a buffer of three. -/
theorem readAtZeroCopy_tread_short :
    Same (tread 3 .rread (frame .rread 1 [2, 0, 0, 0, 7, 8])) (readAtZeroCopy (some [0, 0, 0]) .rread
      (frame .rread 1 [2, 0, 0, 0, 7, 8])) :=
  (readAtZeroCopy_tread (some [0, 0, 0]) 3 .rread 1 [2, 0, 0, 0, 7, 8] (by decide)).2 (.inl nofun)

/-- An empty Rread is an answer to `tread`, and none to a read into nil. -/
theorem nil_differs :
    tread 0 .rread (frame .rread 1 [0, 0, 0, 0]) = .ok [] ∧
      (readAtZeroCopy none .rread (frame .rread 1 [0, 0, 0, 0])).1 = .unexpected typeRread := by
  decide

end NineP.Client.ZeroCopy
