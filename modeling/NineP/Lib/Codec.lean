import Mathlib.Algebra.Ring.Nat
import Mathlib.Data.List.Basic
import Mathlib.Tactic.Common

/-!
# Byte writers, byte readers and the codec relation

A writer appends to an output, a reader consumes an input, and both may fail.  `CodecOn n S p g` relates
the two: on the values of `S` the reader `g` inverts the writer `p` whatever follows, every value `g`
accepts lies in `S` and is written back to exactly the bytes `g` consumed, and no encoding is longer than `n`.
-/

namespace Codec

open List

abbrev Bytes := List UInt8

/-- A writer: the state is the output so far. -/
abbrev Put (ε : Type) := StateT Bytes (Except ε)

/-- A reader: the state is the input that is left. -/
abbrev Get (ε : Type) := StateT Bytes (Except ε)

variable {ε α β : Type}

/-! ## Primitive writers and readers -/

/-- Append `bs` to the output. -/
def put (bs : Bytes) : Put ε Unit := fun buf => .ok ((), buf ++ bs)

/-- Read exactly `n` bytes; `err` names the failure from what is left of the input. -/
def take (err : Bytes → ε) (n : Nat) : Get ε Bytes := fun bs =>
  if n ≤ bs.length then .ok (bs.take n, bs.drop n) else .error (err bs)

/-- Run `m`, sending its error through `f`. -/
def wrapErr (f : ε → ε) (m : StateT Bytes (Except ε) α) : StateT Bytes (Except ε) α := fun s =>
  match m s with
  | .ok r => .ok r
  | .error e => .error (f e)

/-- Fail with `e` when `c` holds. -/
def failIf (c : Prop) [Decidable c] (e : ε) : StateT Bytes (Except ε) Unit := fun s =>
  if c then .error e else .ok ((), s)

/-- A result computed without the stream. -/
def result (x : Except ε α) : StateT Bytes (Except ε) α := fun s => x.map (·, s)

/-- Write a list element by element; `p` sees the index of each. -/
def putList (p : Nat → α → Put ε Unit) : Nat → List α → Put ε Unit
  | _, [] => pure ()
  | i, x :: xs => do
    p i x
    putList p (i + 1) xs

/-- Read `k` elements; `g` sees the index of each. -/
def getList (g : Nat → Get ε α) : Nat → Nat → Get ε (List α)
  | _, 0 => pure []
  | i, k + 1 => do
    let x ← g i
    let xs ← getList g (i + 1) k
    return x :: xs

/-- Run `g` on the first `n` bytes of the input and return with its result the allowance it left unused.
Bytes past the allowance are seen as the end of the input. -/
def limited (n : Nat) (g : Get ε α) : Get ε (α × Nat) := fun bs =>
  match g (bs.take n) with
  | .ok (a, rest) => .ok ((a, n - ((bs.take n).length - rest.length)), rest ++ bs.drop n)
  | .error e => .error e

/-! ## Running a sequence -/

theorem bind_run (m : StateT Bytes (Except ε) α) (k : α → StateT Bytes (Except ε) β) (s : Bytes) :
    (m >>= k) s = match m s with
      | .ok (a, s') => k a s'
      | .error e => .error e := by
  show (bind m k : StateT Bytes (Except ε) β) s = _
  simp only [bind, StateT.bind, Except.bind]
  cases m s with
  | ok r | error e => rfl

variable {m : StateT Bytes (Except ε) α} {s s' b enc : Bytes} {a : α} {c : Prop} {e : ε} {n k : Nat}
  {p : Put ε Unit}

theorem bind_ok {k : α → StateT Bytes (Except ε) β} {b : β} :
    (m >>= k) s = .ok (b, s'') ↔ ∃ a s', m s = .ok (a, s') ∧ k a s' = .ok (b, s'') := by
  rw [bind_run]
  rcases m s with e | ⟨a, s'⟩
  · simp
  · simp

theorem bind_of_ok {k : α → StateT Bytes (Except ε) β} (h : m s = .ok (a, s')) : (m >>= k) s = k a s' := by
  rw [bind_run, h]

@[simp] theorem pure_run (a : α) (s : Bytes) :
    (pure a : StateT Bytes (Except ε) α) s = .ok (a, s) := rfl

@[simp] theorem put_run (bs buf : Bytes) : (put bs : Put ε Unit) buf = .ok ((), buf ++ bs) := rfl

theorem map_ok {k : α → β} {b : β} : (k <$> m) s = .ok (b, s') ↔ ∃ a, m s = .ok (a, s') ∧ k a = b := by
  rw [map_eq_pure_bind, bind_ok]
  constructor
  · rintro ⟨a, mid, h1, h2⟩
    obtain ⟨rfl, rfl⟩ : k a = b ∧ mid = s' := by simpa using h2
    exact ⟨a, h1, rfl⟩
  · rintro ⟨a, h, rfl⟩
    exact ⟨a, s', h, rfl⟩

theorem wrapErr_ok {f : ε → ε} : wrapErr f m s = .ok (a, s') ↔ m s = .ok (a, s') := by
  unfold wrapErr
  cases m s <;> simp

theorem failIf_ok [Decidable c] {u : Unit} : failIf c e s = .ok (u, s') ↔ ¬ c ∧ s = s' := by
  unfold failIf
  split <;> simp [*]

theorem failIf_bind_ok [Decidable c] {k : Unit → StateT Bytes (Except ε) α} :
    (failIf c e >>= k) s = .ok (a, s') ↔ ¬ c ∧ k () s = .ok (a, s') := by
  rw [bind_ok]
  constructor
  · rintro ⟨⟨⟩, mid, h1, h2⟩
    obtain ⟨hc, rfl⟩ := failIf_ok.1 h1
    exact ⟨hc, h2⟩
  · rintro ⟨hc, h⟩
    exact ⟨(), s, failIf_ok.2 ⟨hc, rfl⟩, h⟩

theorem result_ok {x : Except ε α} : result x s = .ok (a, s') ↔ x = .ok a ∧ s = s' := by
  cases x <;> simp [result, Except.map]

theorem take_ok {err : Bytes → ε} : take err n bs = .ok (b, rest) ↔ bs = b ++ rest ∧ b.length = n := by
  unfold take
  split
  · rename_i h
    constructor
    · intro hh
      obtain ⟨rfl, rfl⟩ : bs.take n = b ∧ bs.drop n = rest := by simpa using hh
      simp [length_take, h]
    · rintro ⟨rfl, rfl⟩
      simp
  · rename_i h
    constructor
    · intro hh
      cases hh
    · rintro ⟨rfl, rfl⟩
      simp at h

theorem pure_nil_ok : (pure [] : Get ε Bytes) bs = .ok (b, rest) ↔ bs = b ++ rest ∧ b.length = 0 := by
  rw [pure_run]
  constructor
  · intro h
    obtain ⟨rfl, rfl⟩ : [] = b ∧ bs = rest := by simpa using h
    exact ⟨rfl, rfl⟩
  · rintro ⟨rfl, hb⟩
    obtain rfl := length_eq_zero_iff.1 hb
    rfl

/-! ## The codec relation -/

/-- `g` reads back what `p` writes on `S`, accepts only what `p` writes, and no encoding exceeds `n` bytes. -/
structure CodecOn (n : Nat) (S : α → Prop) (p : α → Put ε Unit) (g : Get ε α) : Prop where
  fwd : ∀ {a : α} {buf buf' : Bytes}, S a → p a buf = .ok ((), buf') →
    ∃ b, buf' = buf ++ b ∧ b.length ≤ n ∧ ∀ rest, g (b ++ rest) = .ok (a, rest)
  bwd : ∀ {bs : Bytes} {a : α} {rest : Bytes}, g bs = .ok (a, rest) →
    S a ∧ ∃ b, bs = b ++ rest ∧ ∀ buf, p a buf = .ok ((), buf ++ b)

/-- Every value. -/
def Any : α → Prop := fun _ => True

namespace CodecOn

variable {S : α → Prop} {T : β → Prop} {p q : α → Put ε Unit}

theorem mono (h : n ≤ k) (c : CodecOn n S p g) : CodecOn k S p g where
  fwd hS hp := by
    obtain ⟨b, hb, hn, hg⟩ := c.fwd hS hp
    exact ⟨b, hb, Nat.le_trans hn h, hg⟩
  bwd := c.bwd

theorem wrapGet (f : ε → ε) (c : CodecOn n S p g) : CodecOn n S p (wrapErr f g) where
  fwd hS hp := by
    obtain ⟨b, hb, hn, hg⟩ := c.fwd hS hp
    exact ⟨b, hb, hn, fun rest => wrapErr_ok.2 (hg rest)⟩
  bwd hg := c.bwd (wrapErr_ok.1 hg)

theorem wrapPut (f : ε → ε) (c : CodecOn n S p g) : CodecOn n S (fun a => wrapErr f (p a)) g where
  fwd hS hp := c.fwd hS (wrapErr_ok.1 hp)
  bwd hg := by
    obtain ⟨hS, b, hb, hp⟩ := c.bwd hg
    exact ⟨hS, b, hb, fun buf => wrapErr_ok.2 (hp buf)⟩

theorem wrap (f f' : ε → ε) (c : CodecOn n S p g) :
    CodecOn n S (fun a => wrapErr f (p a)) (wrapErr f' g) :=
  (c.wrapPut f).wrapGet f'

variable {pb : β → Put ε Unit} {gk : β → Get ε α} {w w' : ε → ε}

/-- **Sequencing.**  Write the field `f a`, then the rest of `a`; read a `b`, then the rest of a value whose
field is `b`. -/
theorem fieldOn (f : α → β) (c : CodecOn n T pb gb) (hS : ∀ a, S a → T (f a))
    (ck : ∀ b, T b → CodecOn k (fun a => S a ∧ f a = b) q (gk b)) :
    CodecOn (n + k) S (fun a => do pb (f a); q a) (gb >>= gk) where
  fwd {a buf buf'} hSa hp := by
    obtain ⟨⟨⟩, mid, h1, h2⟩ := bind_ok.1 hp
    obtain ⟨b₁, rfl, hn₁, hg₁⟩ := c.fwd (hS a hSa) h1
    obtain ⟨b₂, rfl, hn₂, hg₂⟩ := (ck (f a) (hS a hSa)).fwd ⟨hSa, rfl⟩ h2
    refine ⟨b₁ ++ b₂, by simp, by simp; omega, fun rest => ?_⟩
    rw [append_assoc, bind_of_ok (hg₁ _), hg₂]
  bwd {bs a rest} hg := by
    obtain ⟨b, mid, h1, h2⟩ := bind_ok.1 hg
    obtain ⟨hT, b₁, rfl, hp₁⟩ := c.bwd h1
    obtain ⟨⟨hSa, rfl⟩, b₂, rfl, hp₂⟩ := (ck b hT).bwd h2
    refine ⟨hSa, b₁ ++ b₂, by simp, fun buf => ?_⟩
    rw [bind_of_ok (hp₁ buf), hp₂, append_assoc]

theorem field (f : α → β) (c : CodecOn n Any pb gb) (ck : ∀ b, CodecOn k (fun a => S a ∧ f a = b) q (gk b)) :
    CodecOn (n + k) S (fun a => do pb (f a); q a) (gb >>= gk) :=
  fieldOn f c (fun _ _ => trivial) fun b _ => ck b

/-- A field whose errors are wrapped. -/
theorem fieldW {f : α → β} (c : CodecOn n Any pb gb) (ck : ∀ b, CodecOn k (fun a => S a ∧ f a = b) q (gk b)) :
    CodecOn (n + k) S (fun a => do wrapErr w (pb (f a)); q a) (wrapErr w' gb >>= gk) :=
  field f (c.wrap w w') ck

theorem lastOn (f : α → β) (mk : β → α) (c : CodecOn n T pb gb) (hS : ∀ a, S a → T (f a))
    (hmk : ∀ b, T b → ∀ a, (S a ∧ f a = b) ↔ a = mk b) :
    CodecOn n S (fun a => pb (f a)) (do let b ← gb; return mk b) where
  fwd {a buf buf'} hSa hp := by
    obtain ⟨b, rfl, hn, hg⟩ := c.fwd (hS a hSa) hp
    refine ⟨b, rfl, hn, fun rest => ?_⟩
    rw [bind_of_ok (hg rest), ← (hmk (f a) (hS a hSa) a).1 ⟨hSa, rfl⟩, pure_run]
  bwd {bs a rest} hg := by
    obtain ⟨b, mid, h1, h2⟩ := bind_ok.1 hg
    obtain ⟨hT, b₁, rfl, hp₁⟩ := c.bwd h1
    obtain ⟨rfl, rfl⟩ : mk b = a ∧ mid = rest := by simpa using h2
    obtain ⟨hSa, hf⟩ := (hmk b hT (mk b)).2 rfl
    exact ⟨hSa, b₁, rfl, fun buf => by rw [hf, hp₁]⟩

theorem last (f : α → β) (mk : β → α) (c : CodecOn n Any pb gb) (hmk : ∀ b a, (S a ∧ f a = b) ↔ a = mk b) :
    CodecOn n S (fun a => pb (f a)) (do let b ← gb; return mk b) :=
  lastOn f mk c (fun _ _ => trivial) fun b _ => hmk b

/-- The last field, wrapped; together the fields make up the value. -/
theorem lastW {pb : β → Put ε Unit} {w w' : ε → ε} {f : α → β} {mk : β → α} (c : CodecOn n Any pb gb)
    (hmk : ∀ b a, (S a ∧ f a = b) ↔ a = mk b := by intro _ a; cases a; simp [Any, and_assoc]) :
    CodecOn n S (fun a => wrapErr w (pb (f a))) (do let b ← wrapErr w' gb; return mk b) :=
  last f mk (c.wrap w w') hmk

theorem only (f : α → β) (mk : β → α) (c : CodecOn n Any pb gb) (hmk : ∀ b a, f a = b ↔ a = mk b) :
    CodecOn n Any (fun a => wrapErr w (pb (f a))) (do let b ← wrapErr w' gb; return mk b) :=
  .last f mk (c.wrap w w') fun b a => by simp [Any, hmk]

theorem empty (a₀ : α) (h : ∀ a, S a ↔ a = a₀) : CodecOn 0 S (fun _ => (pure () : Put ε Unit)) (pure a₀) where
  fwd {a buf buf'} hSa hp := by
    obtain rfl : buf = buf' := by simpa using hp
    obtain rfl := (h a).1 hSa
    exact ⟨[], by simp, by simp, fun rest => rfl⟩
  bwd {bs a rest} hg := by
    obtain ⟨rfl, rfl⟩ : a₀ = a ∧ bs = rest := by simpa using hg
    exact ⟨(h a₀).2 rfl, [], by simp, fun buf => by simp⟩

/-- A check before writing: the values that fail it are not encodable, and the reader must rule them out. -/
theorem failIfPut {bad : α → Prop} [DecidablePred bad] {e : α → ε}
    (c : CodecOn n (fun a => S a ∧ ¬ bad a) p g) :
    CodecOn n S (fun a => do failIf (bad a) (e a); p a) g where
  fwd {a buf buf'} hSa hp := by
    obtain ⟨hbad, h⟩ := failIf_bind_ok.1 hp
    exact c.fwd ⟨hSa, hbad⟩ h
  bwd {bs a rest} hg := by
    obtain ⟨⟨hSa, hbad⟩, b, hb, hp⟩ := c.bwd hg
    exact ⟨hSa, b, hb, fun buf => failIf_bind_ok.2 ⟨hbad, hp buf⟩⟩

/-- A check of what was read so far: the values on which it fails must lie outside `S`. -/
theorem failIfGet {bad : Prop} [Decidable bad] {e : ε} (hS : ∀ a, S a → ¬ bad)
    (c : ¬ bad → CodecOn n S p g) : CodecOn n S p (do failIf bad e; g) where
  fwd {a buf buf'} hSa hp := by
    have hbad := hS a hSa
    obtain ⟨b, hb, hn, hg⟩ := (c hbad).fwd hSa hp
    exact ⟨b, hb, hn, fun rest => failIf_bind_ok.2 ⟨hbad, hg rest⟩⟩
  bwd {bs a rest} hg := by
    obtain ⟨hbad, h⟩ := failIf_bind_ok.1 hg
    exact (c hbad).bwd h

theorem congr {S' : α → Prop} (c : CodecOn n S' p g) (h : ∀ a, S a ↔ S' a) : CodecOn n S p g where
  fwd hS hp := c.fwd ((h _).1 hS) hp
  bwd hg := ⟨(h _).2 (c.bwd hg).1, (c.bwd hg).2⟩

theorem bytes {g : Get ε Bytes} (k : Nat)
    (hg : ∀ {bs b rest}, g bs = .ok (b, rest) ↔ bs = b ++ rest ∧ b.length = k) :
    CodecOn k (fun b : Bytes => b.length = k) put g where
  fwd {a buf buf'} hlen hp := by
    obtain rfl : buf ++ a = buf' := by simpa using hp
    exact ⟨a, rfl, Nat.le_of_eq hlen, fun rest => hg.2 ⟨rfl, hlen⟩⟩
  bwd {bs a rest} h := by
    obtain ⟨rfl, hlen⟩ := hg.1 h
    exact ⟨hlen, a, rfl, fun buf => rfl⟩

/-- Where writing is appending `enc a`, reading `a` is finding `enc a` in front. -/
theorem get_ok_iff {enc : α → Bytes} (c : CodecOn n Any (fun a => (put (enc a) : Put ε Unit)) g) : g bs = .ok (a, rest) ↔ bs = enc a ++ rest := by
  constructor
  · intro h
    obtain ⟨-, b, rfl, hp⟩ := c.bwd h
    have henc : enc a = b := by simpa using hp []
    rw [henc]
  · rintro rfl
    obtain ⟨b, hb, -, hg⟩ := c.fwd trivial (put_run (enc a) [])
    obtain rfl : enc a = b := by simpa using hb
    exact hg rest

theorem list {pi : Nat → α → Put ε Unit} {gi : Nat → Get ε α} (c : ∀ i, CodecOn n Any (pi i) (gi i)) :
    ∀ k i, CodecOn (k * n) (fun xs : List α => xs.length = k) (putList pi i) (getList gi i k)
  | 0, i => by
    refine ⟨fun {a buf buf'} hlen hp => ?_, fun {bs a rest} hg => ?_⟩
    · obtain rfl := length_eq_zero_iff.1 hlen
      obtain rfl : buf = buf' := by simpa [putList] using hp
      exact ⟨[], by simp, by simp, fun rest => rfl⟩
    · obtain ⟨rfl, rfl⟩ : [] = a ∧ bs = rest := by simpa [getList] using hg
      exact ⟨rfl, [], rfl, fun buf => by simp [putList]⟩
  | k + 1, i => by
    refine ⟨fun {a buf buf'} hlen hp => ?_, fun {bs a rest} hg => ?_⟩
    · obtain ⟨x, xs, rfl⟩ := exists_cons_of_length_eq_add_one hlen
      obtain ⟨⟨⟩, mid, h1, h2⟩ := bind_ok.1 (by simpa only [putList] using hp)
      obtain ⟨b₁, rfl, hn₁, hg₁⟩ := (c i).fwd trivial h1
      obtain ⟨b₂, rfl, hn₂, hg₂⟩ := (list c k (i + 1)).fwd (by simpa using hlen) h2
      refine ⟨b₁ ++ b₂, by simp, by simp [Nat.succ_mul]; omega, fun rest => ?_⟩
      simp only [getList]
      rw [append_assoc, bind_of_ok (hg₁ _), bind_of_ok (hg₂ _), pure_run]
    · obtain ⟨x, mid, h1, h2⟩ := bind_ok.1 (by simpa only [getList] using hg)
      obtain ⟨xs, mid', h3, h4⟩ := bind_ok.1 h2
      obtain ⟨rfl, rfl⟩ : x :: xs = a ∧ mid' = rest := by simpa using h4
      obtain ⟨-, b₁, rfl, hp₁⟩ := (c i).bwd h1
      obtain ⟨hlen, b₂, rfl, hp₂⟩ := (list c k (i + 1)).bwd h3
      refine ⟨by simp [hlen], b₁ ++ b₂, by simp, fun buf => ?_⟩
      simp only [putList]
      rw [bind_of_ok (hp₁ buf), hp₂, append_assoc]

/-- The accepted values decide what is written: writers that agree on `S` may be exchanged. -/
theorem congrPut {p' : α → Put ε Unit} (c : CodecOn n S p' g) (h : ∀ a, S a → p a = p' a) : CodecOn n S p g where
  fwd {a buf buf'} hS hp := c.fwd hS (h a hS ▸ hp)
  bwd {bs a rest} hg := by
    obtain ⟨hS, b, hb, hp⟩ := c.bwd hg
    exact ⟨hS, b, hb, by rwa [h a hS]⟩

/-- **A confined last field.**  The reader runs on the declared `k` bytes and must use them up; on the writer's
side every encoding has exactly that length. -/
theorem limited {e : β × Nat → ε} (f : α → β) (mk : β → α) (c : CodecOn n T pb gb) (hS : ∀ a, S a → T (f a))
    (hlen : ∀ a buf b, S a → pb (f a) buf = .ok ((), buf ++ b) → b.length = k)
    (hmk : ∀ b enc, T b → pb b [] = .ok ((), enc) → enc.length = k → S (mk b) ∧ f (mk b) = b)
    (hext : ∀ a, S a → a = mk (f a)) :
    CodecOn n S (fun a => pb (f a))
      (do let r ← Codec.limited k gb; failIf (r.2 ≠ 0) (e r); return mk r.1) where
  fwd {a buf buf'} hSa hp := by
    obtain ⟨b, rfl, hn, hg⟩ := c.fwd (hS a hSa) hp
    refine ⟨b, rfl, hn, fun rest => ?_⟩
    have hk := hlen a buf b hSa hp
    have hrun : Codec.limited k gb (b ++ rest) = .ok ((f a, 0), rest) := by
      have := hg []
      simp only [append_nil] at this
      simp [Codec.limited, ← hk, this]
    rw [bind_of_ok hrun, failIf_bind_ok, ← hext a hSa]
    exact ⟨by simp, rfl⟩
  bwd {bs a rest} hg := by
    obtain ⟨⟨b, left⟩, mid, h1, h2⟩ := bind_ok.1 hg
    obtain ⟨hleft, h3⟩ := failIf_bind_ok.1 h2
    obtain ⟨rfl, rfl⟩ : mk b = a ∧ mid = rest := by simpa using h3
    unfold Codec.limited at h1
    rcases hrun : gb (bs.take k) with err | ⟨b', rest'⟩
    · simp [hrun] at h1
    · simp only [hrun, Except.ok.injEq, Prod.mk.injEq] at h1
      obtain ⟨⟨rfl, hl⟩, rfl⟩ := h1
      obtain ⟨hT, b₁, hb, hp₁⟩ := c.bwd hrun
      -- nothing of the allowance is left, so the reader consumed the whole window
      have h5 := congrArg List.length hb
      have h6 := length_take_le k bs
      have h7 : left = 0 := by simpa using hleft
      simp only [length_append] at h5
      obtain rfl : rest' = [] := length_eq_zero_iff.1 (by omega)
      obtain ⟨hSa, hf⟩ := hmk b' b₁ hT (hp₁ []) (by simp only [length_nil] at *; omega)
      refine ⟨hSa, b₁, ?_, fun buf => by rw [hf, hp₁]⟩
      rw [nil_append]
      exact (take_append_drop k bs).symm.trans (by rw [hb, append_nil])

end CodecOn

/-! ## Writers with a known output -/

/-- `p` succeeds exactly when `c` holds, and then appends `enc`. -/
def Writes (c : Prop) (enc : Bytes) (p : Put ε Unit) : Prop :=
  ∀ buf buf', p buf = .ok ((), buf') ↔ c ∧ buf' = buf ++ enc

namespace Writes

variable {c d : Prop} {enc enc' : Bytes} {p q : Put ε Unit}

theorem put (bs : Bytes) : Writes True bs (Codec.put bs : Put ε Unit) := fun buf buf' => by
  simp [eq_comm]

theorem wrap (f : ε → ε) (h : Writes c enc p) : Writes c enc (wrapErr f p) := fun buf buf' =>
  wrapErr_ok.trans (h buf buf')

theorem seq (h : Writes c enc p) (h' : Writes d enc' q) : Writes (c ∧ d) (enc ++ enc') (do p; q) := by
  intro buf buf'
  rw [bind_ok]
  constructor
  · rintro ⟨⟨⟩, mid, hp, hq⟩
    obtain ⟨hc, rfl⟩ := (h buf mid).1 hp
    obtain ⟨hd, rfl⟩ := (h' _ _).1 hq
    exact ⟨⟨hc, hd⟩, by rw [append_assoc]⟩
  · rintro ⟨⟨hc, hd⟩, rfl⟩
    exact ⟨(), buf ++ enc, (h _ _).2 ⟨hc, rfl⟩, (h' _ _).2 ⟨hd, by rw [append_assoc]⟩⟩

theorem congr (h : Writes c enc p) (hc : c ↔ d) (henc : enc = enc') : Writes d enc' p := fun buf buf' => by
  rw [h buf buf', hc, henc]

end Writes

/-! ## Writers with a bounded output -/

/-- `p` appends at most `n` bytes. -/
def WritesLe (n : Nat) (p : Put ε Unit) : Prop :=
  ∀ buf buf', p buf = .ok ((), buf') → ∃ b, buf' = buf ++ b ∧ b.length ≤ n

theorem CodecOn.writesLe {S : α → Prop} {p : α → Put ε Unit} (c : CodecOn n S p g) (ha : S a) :
    WritesLe n (p a) := by
  intro buf buf' h
  obtain ⟨b, hb, hn, -⟩ := c.fwd ha h
  exact ⟨b, hb, hn⟩

theorem Writes.writesLe (h : Writes c enc p) : WritesLe enc.length p := by
  intro buf buf' hbuf
  obtain ⟨-, rfl⟩ := (h buf buf').1 hbuf
  exact ⟨enc, rfl, Nat.le_refl _⟩

namespace WritesLe

variable {n k : Nat} {p q : Put ε Unit}

theorem pure : WritesLe 0 (Pure.pure () : Put ε Unit) := by
  intro buf buf' h
  obtain rfl : buf = buf' := by simpa using h
  exact ⟨[], by simp, Nat.le_refl _⟩

theorem mono (h : n ≤ k) (hp : WritesLe n p) : WritesLe k p := by
  intro buf buf' hbuf
  obtain ⟨b, hb, hn⟩ := hp buf buf' hbuf
  exact ⟨b, hb, Nat.le_trans hn h⟩

theorem wrap (f : ε → ε) (hp : WritesLe n p) : WritesLe n (wrapErr f p) := fun buf buf' h =>
  hp buf buf' (wrapErr_ok.1 h)

theorem seq (hp : WritesLe n p) (hq : WritesLe k q) : WritesLe (n + k) (do p; q) := by
  intro buf buf' h
  obtain ⟨⟨⟩, mid, h1, h2⟩ := bind_ok.1 h
  obtain ⟨b₁, rfl, hn⟩ := hp _ _ h1
  obtain ⟨b₂, rfl, hk⟩ := hq _ _ h2
  exact ⟨b₁ ++ b₂, by rw [append_assoc], by simp only [length_append]; omega⟩

end WritesLe

/-! ## Writers with an output of known length -/

/-- `p` succeeds and appends `n` bytes. -/
def Appends (n : Nat) (p : Put ε Unit) : Prop := ∃ enc, enc.length = n ∧ ∀ buf, p buf = .ok ((), buf ++ enc)

theorem Writes.appends (h : Writes c enc p) (hc : c) : Appends enc.length p :=
  ⟨enc, rfl, fun buf => (h buf _).2 ⟨hc, rfl⟩⟩

namespace Appends

variable {n k : Nat} {p q : Put ε Unit}

theorem pure : Appends 0 (Pure.pure () : Put ε Unit) := ⟨[], rfl, fun buf => by simp⟩

theorem wrap (f : ε → ε) (h : Appends n p) : Appends n (wrapErr f p) := by
  obtain ⟨enc, hlen, hp⟩ := h
  exact ⟨enc, hlen, fun buf => wrapErr_ok.2 (hp buf)⟩

theorem seq (hp : Appends n p) (hq : Appends k q) : Appends (n + k) (do p; q) := by
  obtain ⟨enc, rfl, hp⟩ := hp
  obtain ⟨enc', rfl, hq⟩ := hq
  refine ⟨enc ++ enc', length_append, fun buf => bind_ok.2 ⟨(), buf ++ enc, hp buf, ?_⟩⟩
  rw [hq, append_assoc]

theorem guard {b : Prop} [Decidable b] {e : ε} (hb : ¬b) (hp : Appends n p) : Appends n (do failIf b e; p) := by
  obtain ⟨enc, hlen, hp⟩ := hp
  exact ⟨enc, hlen, fun buf => failIf_bind_ok.2 ⟨hb, hp buf⟩⟩

end Appends

/-! ## Little-endian words -/

/-- The `k` low bytes of `v`, least significant first. -/
def leBytes : Nat → Nat → Bytes
  | 0, _ => []
  | k + 1, v => UInt8.ofNat v :: leBytes k (v / 256)

/-- The number whose little-endian bytes these are. -/
def leNat : Bytes → Nat
  | [] => 0
  | b :: bs => b.toNat + 256 * leNat bs

@[simp] theorem length_leBytes : ∀ k v, (leBytes k v).length = k
  | 0, _ => rfl
  | k + 1, v => by simp [leBytes, length_leBytes k]

theorem leNat_leBytes : ∀ k v, leNat (leBytes k v) = v % 256 ^ k
  | 0, v => by simp [leBytes, leNat, Nat.mod_one]
  | k + 1, v => by
    have hpow : v % 256 ^ (k + 1) = v % 256 + 256 * (v / 256 % 256 ^ k) := by
      rw [Nat.pow_add_one', Nat.mod_mul]
    rw [leBytes, leNat, leNat_leBytes k, UInt8.toNat_ofNat', hpow]

/-- The word of `k` bytes that stands at index `i`. -/
def leAt (i k : Nat) (bs : Bytes) : Nat := leNat ((bs.drop i).take k)

theorem leAt_leBytes (hi : pre.length = i) (hv : v < 256 ^ k) :
    leAt i k (pre ++ (leBytes k v ++ rest)) = v := by
  have htake : (leBytes k v ++ rest).take k = leBytes k v := take_left' (length_leBytes k v)
  rw [leAt, drop_left' hi, htake, leNat_leBytes, Nat.mod_eq_of_lt hv]

theorem leBytes_leNat : ∀ bs : Bytes, leBytes bs.length (leNat bs) = bs
  | [] => rfl
  | b :: bs => by
    have hb := b.toNat_lt
    have hdiv : (b.toNat + 256 * leNat bs) / 256 = leNat bs := by omega
    have hmod : UInt8.ofNat (b.toNat + 256 * leNat bs) = b := by
      apply UInt8.toNat_inj.1
      rw [UInt8.toNat_ofNat']
      omega
    simp only [length_cons, leBytes, leNat, hdiv, hmod, leBytes_leNat bs]

theorem leBytes_eq_iff (hv : v < 256 ^ k) (hb : b.length = k) : leBytes k v = b ↔ v = leNat b := by
  constructor
  · rintro rfl
    rw [leNat_leBytes, Nat.mod_eq_of_lt hv]
  · rintro rfl
    rw [← hb, leBytes_leNat]

theorem leNat_lt : ∀ bs : Bytes, leNat bs < 256 ^ bs.length
  | [] => by simp [leNat]
  | b :: bs => by
    have hb := b.toNat_lt
    have ih := leNat_lt bs
    simp only [leNat, length_cons, Nat.pow_succ]
    omega

theorem leBytes_leAt (h : i + k ≤ data.length) : leBytes k (leAt i k data) = (data.drop i).take k := by
  have hlen : ((data.drop i).take k).length = k := by
    rw [length_take, length_drop]
    omega
  unfold leAt
  nth_rewrite 1 [← hlen]
  exact leBytes_leNat _

theorem leAt_lt (i k : Nat) (data : Bytes) : leAt i k data < 256 ^ k := by
  refine Nat.lt_of_lt_of_le (leNat_lt _) (Nat.pow_le_pow_right (by decide) ?_)
  exact length_take_le _ _

theorem leBytes_append_drop (h : i + k ≤ data.length) :
    leBytes k (leAt i k data) ++ data.drop (i + k) = data.drop i := by
  rw [leBytes_leAt h, ← drop_drop]
  exact take_append_drop k _

/-- **A machine word.**  `toNat` and `ofNat` are the word type's own conversions. -/
theorem CodecOn.word (err : Bytes → ε) (k : Nat) {ω : Type} (toNat : ω → Nat) (ofNat : Nat → ω)
    (hlt : ∀ v, toNat v < 256 ^ k) (hofNat : ∀ v, ofNat (toNat v) = v)
    (htoNat : ∀ x, x < 256 ^ k → toNat (ofNat x) = x) :
    CodecOn k Any (fun v : ω => (put (leBytes k (toNat v)) : Put ε Unit))
      (do let b ← take err k; return ofNat (leNat b)) := by
  refine CodecOn.lastOn (fun v => leBytes k (toNat v)) (fun b => ofNat (leNat b)) (CodecOn.bytes k take_ok)
    (fun v _ => length_leBytes k _) fun b hb v => ?_
  rw [leBytes_eq_iff (hlt v) hb]
  constructor
  · rintro ⟨-, h⟩
    rw [← h, hofNat]
  · rintro rfl
    exact ⟨trivial, htoNat _ (hb ▸ leNat_lt b)⟩

end Codec
