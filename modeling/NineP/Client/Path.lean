import NineP.Lib.SlashPath

/-!
# Paths at the client

`splitPath` of `client/path.go`: the names of a walk.  The path is cleaned as it stands, so one that is not rooted keeps
the `..` that lead above its start.
-/

namespace NineP.Client

open Codec SlashPath List

def splitPath (p : Bytes) : List Bytes :=
  let p := clean p
  if p = [0x2e] ∨ p = [0x2f] then []
  else
    let p := if p.head? = some 0x2f then p.tail else p
    (p.splitOn 0x2f).filter (· ≠ [])

theorem splitPath_components (p : Bytes) :
    splitPath p = if clean p = [0x2e] then [] else components (clean p) := by
  unfold splitPath
  dsimp only
  by_cases hdot : clean p = [0x2e]
  · rw [if_pos (.inl hdot), if_pos hdot]
  rw [if_neg hdot]
  by_cases hroot : clean p = [0x2f]
  · rw [if_pos (.inr hroot), hroot]
    rfl
  rw [if_neg (not_or.2 ⟨hdot, hroot⟩)]
  cases clean p with
  | nil => rfl
  | cons b q =>
    by_cases hb : b = 0x2f
    · subst hb
      exact (components_cons q).symm
    · simp [components, hb]

/-- The names are what the loop of `path.Clean` leaves. -/
theorem splitPath_eq (p : Bytes) : splitPath p = cleanElems (p.head? == some 0x2f) [] (p.splitOn 0x2f) := by
  rw [splitPath_components]
  rcases components_clean p with h | ⟨hdot, hnil⟩
  · split
    · rename_i hdot
      rw [hdot] at h
      -- a cleaned path has no element that is a dot
      have hmem : [0x2e] ∈ cleanElems (p.head? == some 0x2f) [] (p.splitOn 0x2f) := h ▸ by decide
      exact absurd rfl (cleanElems_kept (by simp) (fun _ he => splitOn_noSlash he) _ hmem).notDot
    · exact h
  · rw [if_pos hdot, hnil]

theorem splitPath_rooted (p : Bytes) : components (clean (0x2f :: p)) = cleanElems true [] (p.splitOn 0x2f) := by
  have hes : cleanElems true [] ((0x2f :: p).splitOn 0x2f) = cleanElems true [] (p.splitOn 0x2f) := by
    simp [splitOn_cons_eq_if_modifyHead, cleanElems]
  rcases components_clean (0x2f :: p) with h | ⟨h, -⟩
  · exact h.trans hes
  · simp [clean] at h

/-- **The names of a path** are those of the rooted path, and are names, exactly when the path is rooted or no part of
it leads above its start. -/
theorem splitPath_normal_iff (p : Bytes) :
    ((∀ e ∈ splitPath p, Plain e) ∧ splitPath p = components (clean (0x2f :: p))) ↔
      p.head? = some 0x2f ∨ stays 0 (p.splitOn 0x2f) = true := by
  have hkept : ∀ e ∈ splitPath p, Kept e := by
    rw [splitPath_eq]
    exact cleanElems_kept (by simp) fun e he => splitOn_noSlash he
  have hup : [0x2e, 0x2e] ∉ cleanElems true [] (p.splitOn 0x2f) := cleanElems_plain not_mem_nil
  rw [splitPath_rooted]
  constructor
  · rintro ⟨-, heq⟩
    rw [splitPath_eq] at heq
    by_contra hbad
    obtain ⟨hroot, hstays⟩ := not_or.1 hbad
    have h := @cleanElems_stays (p.splitOn 0x2f) [] not_mem_nil
    rw [length_nil, if_neg hstays] at h
    rw [beq_eq_false_iff_ne.2 hroot] at heq
    exact hup (heq ▸ h)
  · intro h
    have heq : splitPath p = cleanElems true [] (p.splitOn 0x2f) := by
      rw [splitPath_eq]
      rcases h with hroot | hstays
      · rw [hroot]
        rfl
      · cases p.head? == some 0x2f with
        | true => rfl
        | false =>
          have h := @cleanElems_stays (p.splitOn 0x2f) [] not_mem_nil
          rwa [length_nil, if_pos hstays] at h
    exact ⟨fun e he => ⟨hkept e he, fun hdot => hup (heq ▸ hdot ▸ he)⟩, heq⟩

/-- The walk to `..` leaves the root. -/
theorem splitPath_dotdot : splitPath [0x2e, 0x2e] = [[0x2e, 0x2e]] ∧ components (clean [0x2f, 0x2e, 0x2e]) = [] := by
  decide

end NineP.Client
