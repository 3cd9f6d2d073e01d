import NineP.Client.Live
import NineP.Proto.Frame

/-!
# Fids

The client's fid allocator, the messages of its operations by what they do to fids, and the fids that a server which
binds and clunks as 9P specifies has bound.
-/

namespace NineP.Client

open Proto

/-! ## The allocator -/

def reuseCacheSize : Nat := 1024

/-- `fidAllocator`; the last element of `reuse` is handed out first. -/
structure FidAllocator where
  next : Fid := 1
  reuse : List Fid := []
  deriving DecidableEq

namespace FidAllocator

/-- `acquire`; nothing stands for `ErrFidExhausted`. -/
def acquire (fa : FidAllocator) : Option Fid × FidAllocator :=
  match fa.reuse.getLast? with
  | some fid => (some fid, { fa with reuse := fa.reuse.dropLast })
  | none => if fa.next ≥ noFid then (none, fa) else (some fa.next, { fa with next := fa.next + 1 })

def release (fa : FidAllocator) (fid : Fid) : FidAllocator :=
  if fa.reuse.length < reuseCacheSize then { fa with reuse := fa.reuse ++ [fid] } else fa

end FidAllocator

/-! ## Messages -/

/-- The T-messages of the operations, by what they do to fids. -/
inductive Request
  | attach (fid : Fid)
  | walk (fid newFid : Fid) (names : List String)
  | xattrwalk (fid newFid : Fid) (name : String)
  | clunk (fid : Fid)
  | on (type : MessageType) (fids : List Fid)  -- uses fids that are bound, and binds none
  deriving DecidableEq

inductive Reply
  | rattach
  | rwalk (qids : Nat)
  | rxattrwalk (size : Nat)
  | rclunk
  | rread (count : Nat)
  | rwrite (count : Nat)
  | other (type : MessageType)
  | rerror (errno : Nat)  -- Rlerror and Rerror
  deriving DecidableEq

namespace Request

/-- The fids that a T-message names. -/
def fids : Request → List Fid
  | .attach fid | .clunk fid => [fid]
  | .walk fid newFid _ | .xattrwalk fid newFid _ => [fid, newFid]
  | .on _ fids => fids

/-- The fid that is bound when the server answers so: a walk binds its new fid if it went all the way. -/
def binds : Request → Reply → Option Fid
  | .attach fid, .rattach => some fid
  | .walk _ newFid names, .rwalk qids => if names = [] ∨ qids = names.length then some newFid else none
  | .xattrwalk _ newFid _, .rxattrwalk _ => some newFid
  | _, _ => none

/-- The server's fids after its answer; a clunk takes effect even if the answer is an error. -/
def apply (m : Request) (r : Reply) (bound : List Fid) : List Fid :=
  match m with
  | .clunk fid => bound.filter (· ≠ fid)
  | m => (m.binds r).toList ++ bound

theorem mem_apply {m : Request} (h : x ∈ m.apply r bound) :
    m.binds r = some x ∨ x ∈ bound ∧ m ≠ .clunk x := by
  cases m with
  | clunk fid =>
    obtain ⟨hx, hne⟩ := List.mem_filter.1 h
    refine .inr ⟨hx, fun heq => ?_⟩
    obtain rfl := Request.clunk.inj heq
    simp at hne
  | _ => simpa [apply] using h

theorem mem_fids_of_binds {m : Request} (h : m.binds r = some x) : x ∈ m.fids := by
  unfold binds at h
  split at h
  · simp_all [fids]
  · simp_all [fids]
  · simp_all [fids]
  · cases h

end Request

/-! ## The server's fids -/

namespace Shared

def binds (c : Shared Request Reply) (f : RFrame Reply) : Option Fid :=
  match c.sent[f.id]? with
  | some ⟨_, .other m⟩ => m.binds f.body
  | _ => none

/-- The server's fids after an answer. -/
def applied (c : Shared Request Reply) (f : RFrame Reply) (bound : List Fid) : List Fid :=
  match c.sent[f.id]? with
  | some ⟨_, .other m⟩ => m.apply f.body bound
  | _ => bound

def bound (c : Shared Request Reply) : List Fid := c.answered.foldr c.applied []

variable {c c' : Shared Request Reply}

theorem bound_congr (hans : c'.answered = c.answered) (hsent : ∀ f ∈ c.answered, c'.sent[f.id]? = c.sent[f.id]?) :
    c'.bound = c.bound := by
  unfold bound
  rw [hans]
  refine List.foldr_ext _ _ _ fun f hf b => ?_
  unfold applied
  rw [hsent f hf]

end Shared

end NineP.Client
