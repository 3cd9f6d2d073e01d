import Mathlib.Data.List.Basic
import Mathlib.Tactic.Common

/-!
# Framed streams

A stream that is written frame by frame: at any time it is a sequence of whole frames, or such a sequence and a part of
one more.
-/

namespace Framing

open List

variable {α : Type} {F : List α → Prop}

/-- A sequence of frames. -/
def Whole (F : List α → Prop) (out : List α) : Prop := ∃ fs : List (List α), (∀ f ∈ fs, F f) ∧ out = fs.flatten

/-- A prefix of a sequence of frames. -/
def Framed (F : List α → Prop) (out : List α) : Prop := ∃ fs : List (List α), (∀ f ∈ fs, F f) ∧ out <+: fs.flatten

theorem whole_nil : Whole F [] := ⟨[], by simp, rfl⟩

theorem Whole.framed (h : Whole F out) : Framed F out := by
  obtain ⟨fs, hfs, rfl⟩ := h
  exact ⟨fs, hfs, prefix_refl _⟩

theorem Whole.append (h : Whole F out) (hf : F f) : Whole F (out ++ f) := by
  obtain ⟨fs, hfs, rfl⟩ := h
  refine ⟨fs ++ [f], fun g hg => ?_, by simp⟩
  rcases mem_append.1 hg with hg | hg
  · exact hfs g hg
  · exact mem_singleton.1 hg ▸ hf

theorem Whole.framed_append (h : Whole F out) (hf : F (part ++ rest)) : Framed F (out ++ part) := by
  obtain ⟨fs, hfs, heq⟩ := h.append hf
  exact ⟨fs, hfs, heq ▸ ⟨rest, by rw [append_assoc]⟩⟩

/-- No frame begins with another one. -/
def PrefixFree (F : List α → Prop) : Prop := ∀ {f g : List α}, F f → F g → f <+: g → f = g

theorem Framed.tail (hF : PrefixFree F) (hf : F f) (hne : f ≠ []) (h : Framed F (f ++ out)) : Framed F out := by
  obtain ⟨fs, hfs, hpre⟩ := h
  cases fs with
  | nil =>
    obtain ⟨hnil, -⟩ := append_eq_nil_iff.1 (prefix_nil.1 hpre)
    exact absurd hnil hne
  | cons g gs =>
    have hg := hfs g mem_cons_self
    rw [flatten_cons] at hpre
    obtain rfl : f = g := by
      rcases prefix_or_prefix_of_prefix ((prefix_append f out).trans hpre) (prefix_append g _) with h | h
      · exact hF hf hg h
      · exact (hF hg hf h).symm
    exact ⟨gs, fun f hf => hfs f (mem_cons_of_mem _ hf), (prefix_append_right_inj f).1 hpre⟩

end Framing
