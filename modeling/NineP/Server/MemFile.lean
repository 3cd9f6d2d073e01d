import NineP.Lib.Slice
import NineP.Proto.P9l.Messages

/-!
# Files in memory

`MemFile` of `server/memfs`: its contents are a slice whose backing array is reused by `Setattr` and `Replace`.
-/

namespace NineP.Server.MemFile

open Codec Proto Slices List

/-! ## The methods -/

structure State where
  data : Slice UInt8
  mode : UInt32
  uid : UInt32
  gid : UInt32

/-- A call, with its arguments; a buffer to read into is known by its length, which is an `int`. -/
inductive Call
  | read (buf : Fin (2 ^ 63)) (offset : UInt64)
  | write (data : Bytes) (offset : UInt64)
  | getattr
  | setattr (attr : P9l.SetAttr)
  | replace (data : Bytes)
  | snapshot

inductive Reply
  | bytes (b : Bytes)
  | count (n : UInt32)
  | attr (mode uid gid : UInt32) (size : Nat)
  | done
  | fail (e : Errno)
  deriving DecidableEq

def newFile (data : Bytes) (mode : UInt32) (room : Bytes) : State := ⟨.new data room, mode, 0, 0⟩

def maxMemFileSize : Nat := maxDataSize

def checkedSize (offset : UInt64) (count : Nat) : Except Errno Nat :=
  if offset.toNat > maxMemFileSize ∨ count > maxMemFileSize - offset.toNat then .error EFBIG
  else .ok (offset.toNat + count)

namespace State

variable (f : State)

def read (buf : Fin (2 ^ 63)) (offset : UInt64) : Bytes :=
  let size := f.data.contents.length
  if offset.toNat ≥ size then []
  else
    let stop := min ((offset.toNat + buf.val) % 2 ^ 64) size
    ((f.data.contents.take stop).drop offset.toNat).take buf.val

/-- A new array of `size` bytes, with the old contents copied into it. -/
def grow (size : Nat) : State :=
  { f with data := (Slice.new (List.replicate size 0) []).copyAt 0 f.data.contents }

def write (data : Bytes) (offset : UInt64) : Reply × State :=
  match checkedSize offset data.length with
  | .error e => (.fail e, f)
  | .ok stop =>
    let f := if stop > f.data.len then f.grow stop else f
    (.count (UInt32.ofNat data.length), { f with data := f.data.copyAt offset.toNat data })

def getattr : Reply := .attr (if f.mode = 0 then 0o644 else f.mode) f.uid f.gid f.data.len

/-- The last step of `Setattr`. -/
def resize (size : Nat) : State :=
  if size < f.data.len then { f with data := f.data.shrink size } else if size > f.data.len then f.grow size else f

def setattr (attr : P9l.SetAttr) : Reply × State :=
  let valid (bit : SetAttrMask) : Bool := attr.valid &&& bit ≠ 0
  if valid setAttrSize ∧ attr.size.toNat > maxMemFileSize then (.fail EFBIG, f)
  else
    let f := if valid setAttrMode then { f with mode := attr.mode } else f
    let f := if valid setAttrUID then { f with uid := attr.uid } else f
    let f := if valid setAttrGID then { f with gid := attr.gid } else f
    (.done, if valid setAttrSize then f.resize attr.size.toNat else f)

/-- `append(f.data[:0], data...)`; a new array may have room behind the data. -/
def replace (data room : Bytes) : Reply × State :=
  if data.length > maxMemFileSize then (.fail EFBIG, f)
  else (.done, { f with data := (f.data.shrink 0).append data room })

def snapshot : Bytes := f.data.contents

/-- **One call**; `room` is what an allocation leaves behind the data. -/
def call (room : Bytes) : Call → Reply × State
  | .read buf offset => (.bytes (f.read buf offset), f)
  | .write data offset => f.write data offset
  | .getattr => (f.getattr, f)
  | .setattr attr => f.setattr attr
  | .replace data => f.replace data room
  | .snapshot => (.bytes f.snapshot, f)

end State

def State.run : State → List (Call × Bytes) → State × List Reply
  | f, [] => (f, [])
  | f, (c, room) :: cs => (((f.call room c).2.run cs).1, (f.call room c).1 :: ((f.call room c).2.run cs).2)

/-! ## What a file is -/

/-- A file as a sequence of bytes with its attributes. -/
structure Contents where
  bytes : Bytes
  mode : UInt32
  uid : UInt32
  gid : UInt32
  deriving DecidableEq

namespace Contents

variable (d : Contents)

/-- The bytes after a call, without regard to the bound. -/
def bytesAfter : Call → Bytes
  | .write data offset => overlay 0 d.bytes data offset.toNat
  | .setattr attr =>
    if attr.valid &&& setAttrSize ≠ 0 then extend 0 attr.size.toNat (d.bytes.take attr.size.toNat) else d.bytes
  | .replace data => data
  | _ => d.bytes

/-- What a call that is not refused returns. -/
def replyTo : Call → Reply
  | .read buf offset => .bytes ((d.bytes.drop offset.toNat).take buf.val)
  | .snapshot => .bytes d.bytes
  | .write data _ => .count (UInt32.ofNat data.length)
  | .getattr => .attr (if d.mode = 0 then 0o644 else d.mode) d.uid d.gid d.bytes.length
  | _ => .done

def attrsAfter : Call → Contents
  | .setattr attr =>
    { d with
      mode := if attr.valid &&& setAttrMode ≠ 0 then attr.mode else d.mode
      uid := if attr.valid &&& setAttrUID ≠ 0 then attr.uid else d.uid
      gid := if attr.valid &&& setAttrGID ≠ 0 then attr.gid else d.gid }
  | _ => d

/-- A call that would make the file too large is refused and changes nothing. -/
def call (c : Call) : Reply × Contents :=
  if (d.bytesAfter c).length > maxDataSize then (.fail EFBIG, d)
  else (d.replyTo c, { d.attrsAfter c with bytes := d.bytesAfter c })

end Contents

def Contents.run : Contents → List Call → Contents × List Reply
  | d, [] => (d, [])
  | d, c :: cs => (((d.call c).2.run cs).1, (d.call c).1 :: ((d.call c).2.run cs).2)

/-- The file that the fields of a `MemFile` stand for: what is behind the length is not part of it. -/
def State.toContents (f : State) : Contents := ⟨f.data.contents, f.mode, f.uid, f.gid⟩

/-! ## Refinement -/

variable {f : State}

theorem toContents_grow (h : f.data.len ≤ size) :
    (f.grow size).toContents = { f.toContents with bytes := extend 0 size f.data.contents } := by
  have hlen : f.data.contents.length = f.data.len := Slice.length_contents
  have hcopy : 0 + f.data.contents.length ≤ (Slice.new (List.replicate size (0 : UInt8)) []).len := by
    simpa [Slice.new, hlen] using h
  have hbytes : (f.grow size).data.contents = extend 0 size f.data.contents := by
    show ((Slice.new (List.replicate size 0) []).copyAt 0 f.data.contents).contents = _
    rw [Slice.contents_copyAt hcopy, Slice.contents_new]
    simp [splice, extend]
  show Contents.mk _ _ _ _ = _
  rw [hbytes]
  rfl

theorem checkedSize_eq (offset : UInt64) (count : Nat) :
    checkedSize offset count =
      if offset.toNat + count > maxDataSize then .error EFBIG else .ok (offset.toNat + count) := by
  have hiff : (offset.toNat > maxMemFileSize ∨ count > maxMemFileSize - offset.toNat) ↔
      offset.toNat + count > maxDataSize := by
    unfold maxMemFileSize
    omega
  unfold checkedSize
  simp only [hiff]

theorem toContents_room (stop : Nat) :
    (if stop > f.data.len then f.grow stop else f).toContents =
      { f.toContents with bytes := extend 0 stop f.data.contents } := by
  split
  · exact toContents_grow (Nat.le_of_lt ‹_›)
  · have hle : stop ≤ f.data.contents.length := by
      rw [Slice.length_contents]
      exact Nat.not_lt.1 ‹_›
    rw [extend_of_le hle]
    rfl

theorem write_refines (data : Bytes) (offset : UInt64) (h : f.data.contents.length ≤ maxDataSize) :
    ((f.write data offset).1, (f.write data offset).2.toContents) = f.toContents.call (.write data offset) := by
  have hover : (f.toContents.bytesAfter (.write data offset)).length =
      max f.data.contents.length (offset.toNat + data.length) := length_overlay
  unfold State.write Contents.call
  rw [checkedSize_eq, hover]
  by_cases hbig : offset.toNat + data.length > maxDataSize
  · rw [if_pos hbig, if_pos (by omega)]
  · rw [if_neg hbig, if_neg (by omega)]
    have hroom := toContents_room (f := f) (offset.toNat + data.length)
    simp only at hroom ⊢
    generalize (if offset.toNat + data.length > f.data.len then f.grow (offset.toNat + data.length) else f) = f' at hroom ⊢
    have hbytes : f'.data.contents = extend 0 (offset.toNat + data.length) f.data.contents :=
      congrArg Contents.bytes hroom
    have hle : offset.toNat + data.length ≤ f'.data.len := by
      rw [← Slice.length_contents, hbytes, length_extend]
      exact Nat.le_max_right _ _
    have hcopy : (f'.data.copyAt offset.toNat data).contents = overlay 0 f.data.contents data offset.toNat := by
      rw [Slice.contents_copyAt hle, hbytes]
      rfl
    have hmode : f'.mode = f.mode := congrArg Contents.mode hroom
    have huid : f'.uid = f.uid := congrArg Contents.uid hroom
    have hgid : f'.gid = f.gid := congrArg Contents.gid hroom
    refine Prod.ext rfl ?_
    show Contents.mk _ f'.mode f'.uid f'.gid = Contents.mk _ f.mode f.uid f.gid
    rw [hcopy, hmode, huid, hgid]
    rfl

/-- `Read` returns what the file has from the offset on: the sum does not wrap, as both sides of it are below half the
range. -/
theorem read_refines (buf : Fin (2 ^ 63)) (offset : UInt64) (h : f.data.contents.length ≤ maxDataSize) :
    f.read buf offset = (f.data.contents.drop offset.toNat).take buf.val := by
  unfold State.read
  simp only
  split
  · rename_i hpast
    rw [drop_of_length_le hpast, take_nil]
  · rename_i hin
    have hsum : (offset.toNat + buf.val) % 2 ^ 64 = offset.toNat + buf.val := by
      refine Nat.mod_eq_of_lt ?_
      have := buf.isLt
      have hmax : maxDataSize < 2 ^ 63 := by decide
      omega
    rw [hsum, drop_take, take_take]
    rcases Nat.le_total (offset.toNat + buf.val) f.data.contents.length with hle | hle
    · rw [Nat.min_eq_left hle, Nat.add_sub_cancel_left, Nat.min_self]
    · rw [Nat.min_eq_right hle]
      have hrest : (f.data.contents.drop offset.toNat).length = f.data.contents.length - offset.toNat := length_drop
      rw [take_of_length_le (by omega), take_of_length_le (by omega)]

theorem toContents_resize (size : Nat) :
    (f.resize size).toContents = { f.toContents with bytes := extend 0 size (f.data.contents.take size) } := by
  have hlen : f.data.contents.length = f.data.len := Slice.length_contents
  unfold State.resize
  split
  · rename_i hlt
    have hextend : extend 0 size (f.data.contents.take size) = f.data.contents.take size := by
      refine extend_of_le ?_
      rw [length_take]
      omega
    rw [hextend, ← Slice.contents_shrink]
    rfl
  · rename_i hge
    have htake : f.data.contents.take size = f.data.contents := take_of_length_le (by omega)
    rw [htake]
    split
    · exact toContents_grow (by omega)
    · rw [extend_of_le (by omega)]
      rfl

theorem setattr_eq (attr : P9l.SetAttr) :
    f.setattr attr =
      if attr.valid &&& setAttrSize ≠ 0 ∧ attr.size.toNat > maxDataSize then (.fail EFBIG, f)
      else
        let g : State :=
          { f with
            mode := if attr.valid &&& setAttrMode ≠ 0 then attr.mode else f.mode
            uid := if attr.valid &&& setAttrUID ≠ 0 then attr.uid else f.uid
            gid := if attr.valid &&& setAttrGID ≠ 0 then attr.gid else f.gid }
        (.done, if attr.valid &&& setAttrSize ≠ 0 then g.resize attr.size.toNat else g) := by
  unfold State.setattr maxMemFileSize
  simp only [decide_eq_true_eq, ne_eq]
  by_cases hmode : attr.valid &&& setAttrMode = 0 <;> by_cases huid : attr.valid &&& setAttrUID = 0 <;>
    by_cases hgid : attr.valid &&& setAttrGID = 0 <;>
    simp only [hmode, huid, hgid, not_true_eq_false, not_false_eq_true, if_true, if_false]

theorem setattr_refines (attr : P9l.SetAttr) (h : f.data.contents.length ≤ maxDataSize) :
    ((f.setattr attr).1, (f.setattr attr).2.toContents) = f.toContents.call (.setattr attr) := by
  rw [setattr_eq]
  unfold Contents.call
  simp only [Contents.bytesAfter]
  by_cases hsize : attr.valid &&& setAttrSize ≠ 0
  · have hlen : (extend (0 : UInt8) attr.size.toNat (f.toContents.bytes.take attr.size.toNat)).length = attr.size.toNat := by
      rw [length_extend, length_take]
      omega
    simp only [if_pos hsize]
    rw [hlen]
    by_cases hbig : attr.size.toNat > maxDataSize
    · simp only [if_pos hbig, if_pos (And.intro hsize hbig)]
    · simp only [if_neg hbig, if_neg fun h : _ ∧ _ => hbig h.2, toContents_resize]
      rfl
  · have hfits : ¬ f.toContents.bytes.length > maxDataSize := Nat.not_lt.2 h
    simp only [if_neg hsize, if_neg hfits, if_neg fun h : _ ∧ _ => hsize h.1]
    rfl

theorem replace_refines (data room : Bytes) :
    ((f.replace data room).1, (f.replace data room).2.toContents) = f.toContents.call (.replace data) := by
  unfold State.replace Contents.call maxMemFileSize
  by_cases hbig : data.length > maxDataSize
  · rw [if_pos hbig]
    exact (if_pos hbig).symm
  · rw [if_neg hbig]
    refine Eq.trans ?_ (if_neg hbig).symm
    have hbytes : ((f.data.shrink 0).append data room).contents = data := by
      rw [Slice.contents_append, Slice.contents_shrink, take_zero, nil_append]
    refine Prod.ext rfl ?_
    show Contents.mk _ _ _ _ = Contents.mk _ _ _ _
    rw [hbytes]
    rfl

theorem call_refines (c : Call) (room : Bytes) (h : f.data.contents.length ≤ maxDataSize) :
    ((f.call room c).1, (f.call room c).2.toContents) = f.toContents.call c := by
  have hfits : ¬ f.toContents.bytes.length > maxDataSize := Nat.not_lt.2 h
  cases c with
  | read buf offset =>
    have hread : f.read buf offset = _ := read_refines buf offset h
    refine Eq.trans ?_ (if_neg hfits).symm
    simp only [State.call, hread]
    rfl
  | write data offset => exact write_refines data offset h
  | getattr =>
    refine Eq.trans ?_ (if_neg hfits).symm
    simp only [State.call, State.getattr, ← Slice.length_contents]
    rfl
  | setattr attr => exact setattr_refines attr h
  | replace data => exact replace_refines data room
  | snapshot => exact (if_neg hfits).symm

theorem Contents.call_le {d : Contents} (c : Call) (h : d.bytes.length ≤ maxDataSize) :
    (d.call c).2.bytes.length ≤ maxDataSize := by
  unfold Contents.call
  split
  · exact h
  · exact Nat.not_lt.1 ‹_›

/-- **A file in memory is a sequence of bytes.**  Every sequence of calls returns what it returns on a sequence of bytes
and leaves that sequence, whatever the arrays hold behind the contents; and a call that would exceed `MaxDataSize` returns
`EFBIG` and leaves the file as it was. -/
theorem run_refines (data : Bytes) (mode : UInt32) (room : Bytes) (h : data.length ≤ maxDataSize)
    (cs : List (Call × Bytes)) :
    let f := newFile data mode room
    let d : Contents := ⟨data, mode, 0, 0⟩
    (f.run cs).2 = (d.run (cs.map Prod.fst)).2 ∧ (f.run cs).1.toContents = (d.run (cs.map Prod.fst)).1 ∧
      (f.run cs).1.data.contents.length ≤ maxDataSize ∧
      ∀ c room', ((f.run cs).1.toContents.bytesAfter c).length > maxDataSize →
        ((f.run cs).1.call room' c).1 = .fail EFBIG ∧
          ((f.run cs).1.call room' c).2.toContents = (f.run cs).1.toContents := by
  have hrun (f : State) (cs : List (Call × Bytes)) (hf : f.data.contents.length ≤ maxDataSize) :
      (f.run cs).2 = (f.toContents.run (cs.map Prod.fst)).2 ∧
        (f.run cs).1.toContents = (f.toContents.run (cs.map Prod.fst)).1 ∧
        (f.run cs).1.data.contents.length ≤ maxDataSize := by
    induction cs generalizing f with
    | nil => exact ⟨rfl, rfl, hf⟩
    | cons c cs ih =>
      obtain ⟨c, room⟩ := c
      have hcall := call_refines c room hf
      have hreply : (f.call room c).1 = (f.toContents.call c).1 := congrArg Prod.fst hcall
      have hnext : (f.call room c).2.toContents = (f.toContents.call c).2 := congrArg Prod.snd hcall
      have hle : (f.call room c).2.toContents.bytes.length ≤ maxDataSize := hnext ▸ Contents.call_le c hf
      obtain ⟨hreplies, hend, hbound⟩ := ih (f.call room c).2 hle
      refine ⟨?_, ?_, hbound⟩
      · simp only [State.run, map_cons, Contents.run, hreply, hreplies, hnext]
      · simp only [State.run, map_cons, Contents.run, hend, hnext]
  have hnew : (newFile data mode room).data.contents = data := Slice.contents_new
  have hd : (newFile data mode room).toContents = ⟨data, mode, 0, 0⟩ := by
    unfold State.toContents
    rw [hnew]
    rfl
  intro f d
  obtain ⟨hreplies, hend, hbound⟩ := hrun f cs (hnew.symm ▸ h)
  rw [hd] at hreplies hend
  refine ⟨hreplies, hend, hbound, fun c room' hbig => ?_⟩
  have hcall := call_refines c room' hbound
  unfold Contents.call at hcall
  rw [if_pos hbig] at hcall
  exact ⟨congrArg Prod.fst hcall, congrArg Prod.snd hcall⟩

/-- A file is cut down to one byte and then written past its end: the old bytes do not come back. -/
theorem run_refines_cut :
    ((newFile [1, 2, 3] 0o644 [9]).run
      [(.setattr ⟨setAttrSize, 0, 0, 0, 1, 0, 0, 0, 0⟩, []), (.write [7] 2, []), (.snapshot, [])]).2 =
        [.done, .count 1, .bytes [1, 0, 7]] := by
  have h := (run_refines [1, 2, 3] 0o644 [9] (by decide)
    [(.setattr ⟨setAttrSize, 0, 0, 0, 1, 0, 0, 0, 0⟩, []), (.write [7] 2, []), (.snapshot, [])]).1
  exact h.trans (by decide)

end NineP.Server.MemFile
