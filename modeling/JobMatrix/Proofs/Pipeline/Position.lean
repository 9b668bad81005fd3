import JobMatrix.Pipeline.Matrix
import Mathlib.Data.List.Basic

/-!
# Positions in a matrix

`Matrix.positioned` lists the records of a matrix with their positions.  It lists every record
(`mem_positioned_iff`), and in the order of the positions, wave by wave (`pairwise_positioned`).
-/

set_option autoImplicit false

namespace JobMatrix

namespace Position

/-- Positions are ordered by their waves, and in a wave by their indices. -/
def Before (p q : Position) : Prop := p.wave < q.wave ∨ p.wave = q.wave ∧ p.index < q.index

theorem Before.irrefl (p : Position) : ¬p.Before p := by
  simp [Before]

theorem Before.asymm {p q : Position} (h : p.Before q) : ¬q.Before p := by
  simp only [Before] at *
  omega

end Position

namespace Matrix

/-- The records of a wave with their positions, the first of which has the given index. -/
def positionedFrom (wave : Nat) (rs : List Record) (index : Nat) : List (Position × Record) :=
  (rs.zipIdx index).map fun (r, j) => (⟨wave, j⟩, r)

theorem positionedFrom_cons (wave : Nat) (r : Record) (rs : List Record) (index : Nat) :
    positionedFrom wave (r :: rs) index
      = (⟨wave, index⟩, r) :: positionedFrom wave rs (index + 1) := rfl

theorem positioned_eq (m : Matrix) :
    m.positioned = m.zipIdx.flatMap fun (w, i) => positionedFrom i w 0 := rfl

theorem jobCount_eq (m : Matrix) : m.jobCount = m.flatten.length := by
  rw [jobCount, List.length_flatten, List.sum_eq_foldl_nat, List.foldl_map]

/-- The records with positions are the records, wave by wave. -/
theorem map_snd_positioned (m : Matrix) : m.positioned.map Prod.snd = m.flatten := by
  have hwave (i : Nat) (w : Wave) : (positionedFrom i w 0).map Prod.snd = w := by
    rw [positionedFrom, List.map_map]
    exact List.zipIdx_map_fst 0 w
  rw [positioned_eq, List.map_flatMap]
  simp only [hwave]
  rw [List.flatMap_def, ← List.zipIdx_map_fst 0 m]
  simp

/-- The record at a position. -/
def at? (m : Matrix) (p : Position) : Option Record := m[p.wave]?.bind fun w => w[p.index]?

theorem mem_positioned_iff {m : Matrix} {q : Position × Record} :
    q ∈ m.positioned ↔ m.at? q.1 = some q.2 := by
  obtain ⟨⟨i, j⟩, r⟩ := q
  simp only [positioned, at?, List.mem_flatMap, List.mem_map, Prod.exists,
    List.mem_zipIdx_iff_getElem?, Option.bind_eq_some_iff, Prod.mk.injEq, Position.mk.injEq]
  constructor
  · rintro ⟨w, _, hw, _, _, hr, ⟨rfl, rfl⟩, rfl⟩
    exact ⟨w, hw, hr⟩
  · rintro ⟨w, hw, hr⟩
    exact ⟨w, i, hw, r, j, hr, ⟨rfl, rfl⟩, rfl⟩

theorem pairwise_zipIdx {α : Type} (l : List α) : l.zipIdx.Pairwise fun a b => a.2 < b.2 := by
  have h := List.pairwise_lt_range' (s := 0) (n := l.length)
  rw [← List.zipIdx_map_snd, List.pairwise_map] at h
  exact h

/-- The records are listed in the order of their positions. -/
theorem pairwise_positioned (m : Matrix) : m.positioned.Pairwise fun p q => p.1.Before q.1 := by
  rw [positioned, List.pairwise_flatMap]
  refine ⟨fun ⟨w, i⟩ _ => ?_, (pairwise_zipIdx m).imp fun hij x hx y hy => ?_⟩
  · rw [List.pairwise_map]
    exact (pairwise_zipIdx w).imp fun hjk => .inr ⟨rfl, hjk⟩
  · obtain ⟨_, -, rfl⟩ := List.mem_map.1 hx
    obtain ⟨_, -, rfl⟩ := List.mem_map.1 hy
    exact .inl hij

/-- What is listed in front of a record are the records before it. -/
theorem mem_before_iff {m : Matrix} {before after : List (Position × Record)}
    {q : Position × Record} (h : m.positioned = before ++ q :: after) {p : Position × Record} :
    p ∈ before ↔ m.at? p.1 = some p.2 ∧ p.1.Before q.1 := by
  have hsorted := pairwise_positioned m
  rw [h, List.pairwise_append, List.pairwise_cons] at hsorted
  obtain ⟨-, ⟨hafter, -⟩, hbefore⟩ := hsorted
  constructor
  · intro hp
    exact ⟨mem_positioned_iff.1 (h ▸ List.mem_append_left _ hp),
      hbefore p hp q List.mem_cons_self⟩
  · rintro ⟨hp, hpq⟩
    rw [← mem_positioned_iff, h, List.mem_append, List.mem_cons] at hp
    rcases hp with hp | rfl | hp
    · exact hp
    · exact absurd hpq (Position.Before.irrefl _)
    · exact absurd (hafter p hp) hpq.asymm

end Matrix

end JobMatrix
