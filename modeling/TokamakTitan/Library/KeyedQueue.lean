import Mathlib.Algebra.BigOperators.Group.List.Basic
import Mathlib.Data.List.AList

/-! A queue of keys next to a map: the queued keys are the ones of the map, each once. Values have
weights, which are summed over the queue. -/
namespace KeyedQueue
open List

universe u v

variable {κ : Type u} [DecidableEq κ] {β : Type v} {queue : List κ} {m : AList fun _ : κ => β}
  {k : κ} {x : β}

structure Matches (queue : List κ) (m : AList fun _ : κ => β) : Prop where
  nodup : queue.Nodup
  mem_iff : ∀ k, k ∈ queue ↔ k ∈ m

namespace Matches

omit [DecidableEq κ] in
theorem empty : Matches [] (∅ : AList fun _ : κ => β) :=
  ⟨nodup_nil, by simp⟩

theorem exists_head (h : Matches (k :: queue) m) : ∃ x, m.lookup k = some x := by
  apply Option.isSome_iff_exists.mp
  rw [AList.lookup_isSome, ← h.mem_iff]
  exact mem_cons_self

theorem pop (h : Matches (k :: queue) m) : Matches queue (m.erase k) := by
  obtain ⟨hfresh, hnodup⟩ := nodup_cons.mp h.nodup
  refine ⟨hnodup, fun j => ?_⟩
  have hj := h.mem_iff j
  rw [mem_cons] at hj
  rw [AList.mem_erase, ← hj]
  constructor
  · intro hmem
    exact ⟨ne_of_mem_of_not_mem hmem hfresh, .inr hmem⟩
  · rintro ⟨hne, heq | hmem⟩
    · exact absurd heq hne
    · exact hmem

theorem push (h : Matches queue m) (hfresh : k ∉ m) (x : β) :
    Matches (queue ++ [k]) (m.insert k x) := by
  constructor
  · rw [nodup_append]
    refine ⟨h.nodup, nodup_singleton k, ?_⟩
    intro a ha b hb hab
    rw [mem_singleton] at hb
    subst hb hab
    exact hfresh ((h.mem_iff _).mp ha)
  · intro j
    rw [mem_append, mem_singleton, AList.mem_insert, h.mem_iff, or_comm]

theorem update (h : Matches queue m) (hmem : k ∈ m) (x : β) : Matches queue (m.insert k x) := by
  refine ⟨h.nodup, fun j => ?_⟩
  rw [AList.mem_insert, h.mem_iff]
  constructor
  · exact .inr
  · rintro (rfl | hj)
    · exact hmem
    · exact hj

omit [DecidableEq κ] in
theorem perm_keys (h : Matches queue m) : queue.Perm m.keys :=
  (perm_ext_iff_of_nodup h.nodup m.keys_nodup).mpr fun k => by
    rw [h.mem_iff, AList.mem_keys]

end Matches

variable {M : Type*} [AddCommMonoid M] (w : β → M)

def weightAt (m : AList fun _ : κ => β) (k : κ) : M := ((m.lookup k).map w).getD 0

def weight (queue : List κ) (m : AList fun _ : κ => β) : M := (queue.map (weightAt w m)).sum

variable {w}

theorem weightAt_eq (h : m.lookup k = some x) : weightAt w m k = w x := by
  rw [weightAt, h]
  rfl

theorem Matches.sum_entries (h : Matches queue m) :
    (m.entries.map fun entry => w entry.2).sum = weight w queue m := by
  have hentries : m.entries.map (fun entry => w entry.2) = m.keys.map (weightAt w m) := by
    rw [AList.keys, keys, map_map]
    apply map_congr_left
    intro entry hentry
    exact (weightAt_eq (AList.mem_lookup_iff.mpr hentry)).symm
  rw [hentries, weight]
  exact ((h.perm_keys.map _).sum_eq).symm

theorem weight_congr {m' : AList fun _ : κ => β} (h : ∀ k ∈ queue, m'.lookup k = m.lookup k) :
    weight w queue m' = weight w queue m := by
  rw [weight, weight, map_congr_left]
  intro k hk
  rw [weightAt, weightAt, h k hk]

theorem Matches.weight_pop (h : Matches (k :: queue) m) (hx : m.lookup k = some x) :
    weight w (k :: queue) m = w x + weight w queue (m.erase k) := by
  have hfresh := (nodup_cons.mp h.nodup).1
  have hrest : weight w queue (m.erase k) = weight w queue m :=
    weight_congr fun j hj => AList.lookup_erase_ne (ne_of_mem_of_not_mem hj hfresh)
  rw [hrest, weight, map_cons, sum_cons, weightAt_eq hx]
  rfl

theorem Matches.weight_push (h : Matches queue m) (hfresh : k ∉ m) (x : β) :
    weight w (queue ++ [k]) (m.insert k x) = weight w queue m + w x := by
  have hold : weight w queue (m.insert k x) = weight w queue m := by
    apply weight_congr
    intro j hj
    apply AList.lookup_insert_ne
    rintro rfl
    exact hfresh ((h.mem_iff _).mp hj)
  rw [← hold, weight, map_append, sum_append, map_singleton, sum_singleton,
    weightAt_eq (AList.lookup_insert m)]
  rfl

theorem Matches.weight_update {y : β} (h : Matches queue m) (hx : m.lookup k = some x) :
    weight w queue (m.insert k y) + w x = weight w queue m + w y := by
  have hmem : k ∈ queue := by
    rw [h.mem_iff, ← AList.lookup_isSome, hx]
    rfl
  obtain ⟨front, back, rfl⟩ := append_of_mem hmem
  have hnodup := nodup_middle.mp h.nodup
  have hfresh := (nodup_cons.mp hnodup).1
  rw [mem_append, not_or] at hfresh
  have hfront : weight w front (m.insert k y) = weight w front m :=
    weight_congr fun j hj => AList.lookup_insert_ne (ne_of_mem_of_not_mem hj hfresh.1)
  have hback : weight w back (m.insert k y) = weight w back m :=
    weight_congr fun j hj => AList.lookup_insert_ne (ne_of_mem_of_not_mem hj hfresh.2)
  have hsplit : ∀ n : AList fun _ : κ => β, weight w (front ++ k :: back) n =
      weight w front n + (weightAt w n k + weight w back n) := by
    intro n
    rw [weight, map_append, sum_append, map_cons, sum_cons]
    rfl
  rw [hsplit, hsplit, hfront, hback, weightAt_eq hx, weightAt_eq (AList.lookup_insert m)]
  ac_rfl

end KeyedQueue
