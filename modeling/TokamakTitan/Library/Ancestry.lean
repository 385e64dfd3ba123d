import Mathlib.Data.Nat.Notation
import Mathlib.Logic.Relation

/-! Forests of blocks: every block has at most one parent, and is one above it. Two ancestors of a
block are ordered by their heights. -/
namespace Ancestry

structure Forest (α : Type*) where
  parent : α → Option α
  height : α → ℕ
  height_succ : ∀ {child p}, parent child = some p → height child = height p + 1

namespace Forest

variable {α β : Type*}

/-- The forest of blocks that name their parents. A parent counts if its block is there. -/
def ofBlocks (block : α → Option β) (parentOf : β → α) (number : β → ℕ)
    (hnumber : ∀ {a b p}, block a = some b → block (parentOf b) = some p →
      number b = number p + 1) : Forest α where
  parent a := (block a).bind fun b => (block (parentOf b)).map fun _ => parentOf b
  height a := (block a).elim 0 number
  height_succ := by
    intro child p h
    obtain ⟨b, hb, h⟩ := Option.bind_eq_some_iff.mp h
    obtain ⟨q, hq, rfl⟩ := Option.map_eq_some_iff.mp h
    simp only [hb, hq, Option.elim_some]
    exact hnumber hb hq

variable (F : Forest α)

def Ancestor (a b : α) : Prop := Relation.ReflTransGen (fun c p => F.parent c = some p) b a

variable {F} {a b top : α}

theorem Ancestor.refl (F : Forest α) (a : α) : F.Ancestor a a := Relation.ReflTransGen.refl

theorem Ancestor.trans (hab : F.Ancestor a b) (hbc : F.Ancestor b top) : F.Ancestor a top :=
  Relation.ReflTransGen.trans hbc hab

theorem Ancestor.of_parent (h : F.parent b = some a) : F.Ancestor a b := .single h

theorem Ancestor.height_le (h : F.Ancestor a b) : F.height a ≤ F.height b := by
  induction h with
  | refl => exact Nat.le_refl _
  | tail _ hparent =>
    have hsucc := F.height_succ hparent
    omega

theorem Ancestor.eq_of_height_le (h : F.Ancestor a b) (hle : F.height b ≤ F.height a) : a = b := by
  rcases h.cases_head with hsame | ⟨p, hparent, hrest⟩
  · exact hsame.symm
  · have hsucc := F.height_succ hparent
    have hlow : F.height a ≤ F.height p := height_le hrest
    omega

theorem Ancestor.of_height_le (ha : F.Ancestor a top) (hb : F.Ancestor b top)
    (hle : F.height a ≤ F.height b) : F.Ancestor a b := by
  have hunique : Relator.RightUnique fun c p => F.parent c = some p := by
    intro c p q hp hq
    rw [hp] at hq
    exact Option.some.inj hq
  rcases Relation.ReflTransGen.total_of_right_unique hunique ha hb with hup | hdown
  · have hba : F.Ancestor b a := hup
    rw [hba.eq_of_height_le hle]
    exact .refl F a
  · exact hdown

variable {block : α → Option β} {parentOf : β → α} {number : β → ℕ}
  {hnumber : ∀ {a b p}, block a = some b → block (parentOf b) = some p → number b = number p + 1}

theorem parent_ofBlocks {x y : β} (hx : block a = some x) (hy : block (parentOf x) = some y) :
    (ofBlocks block parentOf number hnumber).parent a = some (parentOf x) := by
  simp [ofBlocks, hx, hy]

theorem height_ofBlocks {x : β} (hx : block a = some x) :
    (ofBlocks block parentOf number hnumber).height a = number x := by
  simp [ofBlocks, hx]

end Forest

end Ancestry
