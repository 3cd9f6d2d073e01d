import NineP.Lib.Codec

/-!
# Slash-separated paths

Main result: `components_clean`.
-/

namespace SlashPath

open List

open Codec (Bytes)

/-- The loop of `path.Clean`: `out` is what was written, the last element first. -/
def cleanElems (rooted : Bool) : List Bytes → List Bytes → List Bytes
  | out, [] => out.reverse
  | out, e :: es =>
    if e = [] ∨ e = [0x2e] then cleanElems rooted out es
    else if e = [0x2e, 0x2e] then
      match out with
      | x :: out' => if x = [0x2e, 0x2e] then cleanElems rooted (e :: out) es else cleanElems rooted out' es
      | [] => if rooted then cleanElems rooted [] es else cleanElems rooted [e] es
    else cleanElems rooted (e :: out) es

def join (names : List Bytes) : Bytes := [0x2f].intercalate names

def clean (p : Bytes) : Bytes :=
  let rooted := p.head? == some 0x2f
  let es := cleanElems rooted [] (p.splitOn 0x2f)
  if rooted then 0x2f :: join es else if es = [] then [0x2e] else join es

example : clean ([0x2f, 0x61] ++ 0x2f :: join [[0x2e, 0x2e], [0x62], [0x2e]]) = [0x2f, 0x62] := by decide

/-- The elements between the slashes that are not empty. -/
def components (p : Bytes) : List Bytes := (p.splitOn 0x2f).filter (· ≠ [])

/-- An element that can stand in a cleaned path. -/
structure Kept (e : Bytes) : Prop where
  nonempty : e ≠ []
  notDot : e ≠ [0x2e]
  noSlash : 0x2f ∉ e

/-- A name. -/
structure Plain (e : Bytes) : Prop extends Kept e where
  notDotDot : e ≠ [0x2e, 0x2e]

/-- Starting `n` elements deep, the path never leads above its start. -/
def stays : Nat → List Bytes → Bool
  | _, [] => true
  | n, e :: es =>
    if e = [] ∨ e = [0x2e] then stays n es
    else if e = [0x2e, 0x2e] then
      match n with
      | 0 => false
      | n + 1 => stays n es
    else stays (n + 1) es

/-! ## The elements of a path -/

theorem splitOn_noSlash {p e : Bytes} (he : e ∈ p.splitOn 0x2f) : 0x2f ∉ e := by
  induction p generalizing e with
  | nil =>
    obtain rfl : e = [] := by simpa using he
    exact not_mem_nil
  | cons b p ih =>
    rw [splitOn_cons_eq_if_modifyHead] at he
    split at he
    · rcases mem_cons.1 he with rfl | he
      · exact not_mem_nil
      · exact ih he
    · rename_i hb
      cases hsplit : p.splitOn 0x2f with
      | nil => exact absurd hsplit (splitOn_ne_nil _ _)
      | cons e₀ es =>
        rw [hsplit] at he ih
        rcases mem_cons.1 he with rfl | he
        · rw [mem_cons, not_or]
          exact ⟨fun h => hb (by simp [← h]), ih mem_cons_self⟩
        · exact ih (mem_cons_of_mem _ he)

variable {es out : List Bytes}

theorem components_join (h : ∀ e ∈ es, Kept e) : components (join es) = es := by
  cases es with
  | nil => rfl
  | cons e es =>
    rw [components, join, splitOn_intercalate _ (fun e he => (h e he).noSlash) (cons_ne_nil _ _)]
    exact filter_eq_self.2 fun e he => by simpa using (h e he).nonempty

theorem components_cons (p : Bytes) : components (0x2f :: p) = components p := by
  simp [components, splitOn_cons_eq_if_modifyHead]

theorem components_append (p q : Bytes) : components (p ++ 0x2f :: q) = components p ++ components q := by
  simp [components, splitOn_append_cons_self]

/-- What is written consists of elements of the path. -/
theorem cleanElems_kept (hout : ∀ e ∈ out, Kept e) (hes : ∀ e ∈ es, 0x2f ∉ e) :
    ∀ e ∈ cleanElems r out es, Kept e := by
  induction es generalizing out with
  | nil => simpa [cleanElems] using hout
  | cons e es ih =>
    have ih' {out : List Bytes} (h : ∀ e ∈ out, Kept e) := ih h fun e he => hes e (mem_cons_of_mem _ he)
    unfold cleanElems
    split
    · exact ih' hout
    · rename_i he
      have hkept : ∀ x ∈ e :: out, Kept x :=
        forall_mem_cons.2 ⟨⟨fun h => he (.inl h), fun h => he (.inr h), hes e mem_cons_self⟩, hout⟩
      split
      · split
        · split
          · exact ih' hkept
          · exact ih' fun x hx => hout x (mem_cons_of_mem _ hx)
        · split
          · exact ih' hout
          · exact ih' fun x hx => hkept x (by simpa using hx)
      · exact ih' hkept

/-- The components of a cleaned path are what the loop writes. -/
theorem components_clean (p : Bytes) :
    components (clean p) = cleanElems (p.head? == some 0x2f) [] (p.splitOn 0x2f) ∨
      clean p = [0x2e] ∧ cleanElems (p.head? == some 0x2f) [] (p.splitOn 0x2f) = [] := by
  have hkept : ∀ e ∈ cleanElems (p.head? == some 0x2f) [] (p.splitOn 0x2f), Kept e :=
    cleanElems_kept (by simp) fun e he => splitOn_noSlash he
  unfold clean
  dsimp only
  split
  · exact .inl ((components_cons _).trans (components_join hkept))
  · split
    · rename_i hnil
      exact .inr ⟨rfl, hnil⟩
    · exact .inl (components_join hkept)

/-! ## Going up -/

theorem cleanElems_plain (hout : [0x2e, 0x2e] ∉ out) : [0x2e, 0x2e] ∉ cleanElems true out es := by
  induction es generalizing out with
  | nil => simpa [cleanElems] using hout
  | cons e es ih =>
    unfold cleanElems
    split
    · exact ih hout
    · split
      · split
        · rename_i x out'
          split
          · rename_i hx
            exact absurd (hx ▸ mem_cons_self) hout
          · exact ih fun h => hout (mem_cons_of_mem _ h)
        · exact ih hout
      · rename_i he
        exact ih (by simpa [Ne.symm he] using hout)

theorem cleanElems_above (hout : [0x2e, 0x2e] ∈ out) : [0x2e, 0x2e] ∈ cleanElems false out es := by
  induction es generalizing out with
  | nil => simpa [cleanElems] using hout
  | cons e es ih =>
    unfold cleanElems
    split
    · exact ih hout
    · split
      · split
        · rename_i x out'
          split
          · exact ih (mem_cons_of_mem _ hout)
          · rename_i hx
            exact ih (mem_of_ne_of_mem (Ne.symm hx) hout)
        · exact absurd hout not_mem_nil
      · exact ih (mem_cons_of_mem _ hout)

/-- Cleaning from a stack of names: what is written differs from a rooted path only by a `..` that leads up. -/
theorem cleanElems_stays (hout : [0x2e, 0x2e] ∉ out) :
    if stays out.length es then cleanElems false out es = cleanElems true out es
      else [0x2e, 0x2e] ∈ cleanElems false out es := by
  induction es generalizing out with
  | nil => rfl
  | cons e es ih =>
    unfold cleanElems stays
    split
    · exact ih hout
    · split
      · rename_i he
        cases out with
        | nil =>
          subst he
          exact cleanElems_above mem_cons_self
        | cons x out =>
          have hx : x ≠ [0x2e, 0x2e] := fun h => hout (h ▸ mem_cons_self)
          simp only [hx, if_false, length_cons]
          exact ih fun h => hout (mem_cons_of_mem _ h)
      · rename_i he
        exact @ih (e :: out) (by simpa [Ne.symm he] using hout)

/-! ## Paths of names -/

theorem cleanElems_names (h : ∀ e ∈ es, e ≠ [] → Plain e) :
    cleanElems r out es = out.reverse ++ es.filter (· ≠ []) := by
  induction es generalizing out with
  | nil => simp [cleanElems]
  | cons e es ih =>
    have ih' {out : List Bytes} := @ih out fun x hx => h x (mem_cons_of_mem _ hx)
    unfold cleanElems
    by_cases he : e = []
    · rw [if_pos (.inl he), ih', filter_cons_of_neg (by simpa using he)]
    · have hplain := h e mem_cons_self he
      rw [if_neg (not_or.2 ⟨he, hplain.notDot⟩), if_neg hplain.notDotDot, ih', filter_cons_of_pos (by simpa using he)]
      simp

theorem clean_rooted (h : ∀ e ∈ components p, Plain e) : clean (0x2f :: p) = 0x2f :: join (components p) := by
  have hes : ∀ e ∈ (0x2f :: p).splitOn 0x2f, e ≠ [] → Plain e := fun e he hne =>
    h e (components_cons p ▸ mem_filter.2 ⟨he, by simpa using hne⟩)
  have hclean : cleanElems true [] ((0x2f :: p).splitOn 0x2f) = components p :=
    (cleanElems_names hes).trans (components_cons p)
  simp [clean, hclean]

/-- A rooted path of names, extended by names. -/
theorem clean_append (h : ∀ e ∈ es, Plain e) (hout : ∀ e ∈ out, Plain e) :
    clean (0x2f :: join es ++ 0x2f :: join out) = 0x2f :: join (es ++ out) := by
  have hcomp : components (join es ++ 0x2f :: join out) = es ++ out := by
    rw [components_append, components_join fun e he => (h e he).toKept, components_join fun e he => (hout e he).toKept]
  rw [cons_append, clean_rooted, hcomp]
  rw [hcomp]
  exact forall_mem_append.2 ⟨h, hout⟩

theorem join_concat (es : List Bytes) (e : Bytes) : ∃ p, 0x2f :: join (es ++ [e]) = p ++ 0x2f :: e := by
  induction es with
  | nil => exact ⟨[], by simp [join]⟩
  | cons x es ih =>
    obtain ⟨p, hp⟩ := ih
    refine ⟨0x2f :: x ++ p, ?_⟩
    rw [append_assoc, ← hp]
    cases es <;> simp [join]

end SlashPath
