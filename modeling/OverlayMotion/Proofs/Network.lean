import Mathlib.Data.List.Nodup
import Mathlib.Data.List.Perm.Basic
import OverlayMotion.Proofs.Labels

/-! Graphs of streams, grown by one input or one chain at a time. What has been read
and what is still open are together what came in and what was written, each of it once;
everything that a grown graph promises follows from that balance. -/
namespace OverlayMotion.Graph
open scoped List

structure Link where
  reads : List Wire
  writes : Wire

inductive Grown : Nat → List Link → List Wire → Prop
  | empty : Grown 0 [] []
  | input {n links ends w} : Grown n links ends → w.input? = some n →
      Grown (n + 1) links (w :: ends)
  | link {n links ends reads others w} : Grown n links ends → ends.Perm (reads ++ others) →
      w.input? = none → w ∉ links.map Link.writes →
      Grown n (links ++ [⟨reads, w⟩]) (w :: others)

namespace Grown

variable {n : Nat} {links : List Link} {ends : List Wire}

theorem balanced (g : Grown n links ends) :
    ∃ streams : List Wire, streams.map Wire.input? = (List.range n).map some ∧
      (links.flatMap Link.reads ++ ends).Perm (streams ++ links.map Link.writes) := by
  induction g with
  | empty => exact ⟨[], rfl, .refl _⟩
  | @input n links ends w _ source ih =>
    obtain ⟨streams, inputs, balance⟩ := ih
    refine ⟨streams ++ [w], by simp [List.range_succ, inputs, source], ?_⟩
    calc links.flatMap Link.reads ++ w :: ends
      _ ~ w :: (links.flatMap Link.reads ++ ends) := List.perm_middle
      _ ~ w :: (streams ++ links.map Link.writes) := balance.cons w
      _ ~ streams ++ w :: links.map Link.writes := List.perm_middle.symm
      _ = streams ++ [w] ++ links.map Link.writes := by simp
  | @link n links ends reads others w _ taken _ _ ih =>
    obtain ⟨streams, inputs, balance⟩ := ih
    refine ⟨streams, inputs, ?_⟩
    -- A link turns the ends that it reads into wires read, and opens the one that it writes.
    calc (links ++ [Link.mk reads w]).flatMap Link.reads ++ w :: others
      _ = links.flatMap Link.reads ++ reads ++ w :: others := by simp
      _ ~ w :: (links.flatMap Link.reads ++ reads ++ others) := List.perm_middle
      _ = w :: (links.flatMap Link.reads ++ (reads ++ others)) := by simp
      _ ~ w :: (links.flatMap Link.reads ++ ends) := (taken.symm.append_left _).cons w
      _ ~ w :: (streams ++ links.map Link.writes) := balance.cons w
      _ ~ streams ++ links.map Link.writes ++ [w] := (List.perm_append_singleton ..).symm
      _ = streams ++ (links ++ [Link.mk reads w]).map Link.writes := by simp

theorem written (g : Grown n links ends) : ∀ w ∈ links.map Link.writes, w.input? = none := by
  induction g with
  | empty => simp
  | input _ _ ih => exact ih
  | link _ _ inner _ ih =>
    intro v inside
    rw [List.map_append, List.mem_append] at inside
    rcases inside with before | last
    · exact ih v before
    · rwa [List.mem_singleton.mp last]

theorem distinct (g : Grown n links ends) : (links.map Link.writes).Nodup := by
  induction g with
  | empty => exact List.nodup_nil
  | input _ _ ih => exact ih
  | link _ _ _ fresh ih =>
    rw [List.map_append]
    exact ih.append (List.nodup_singleton _) (by simpa using fresh)

theorem known (g : Grown n links ends) {w : Wire} (inside : w ∈ links.flatMap Link.reads ++ ends) :
    (∃ i < n, w.input? = some i) ∨ w ∈ links.map Link.writes := by
  obtain ⟨streams, inputs, balance⟩ := g.balanced
  rcases List.mem_append.mp (balance.mem_iff.mp inside) with stream | written
  · have listed : w.input? ∈ (List.range n).map some := by
      rw [← inputs]
      exact List.mem_map_of_mem stream
    obtain ⟨i, below, same⟩ := List.mem_map.mp listed
    exact .inl ⟨i, List.mem_range.mp below, same.symm⟩
  · exact .inr written

theorem ordered (g : Grown n links ends) {before after : List Link} {l : Link}
    (split : links = before ++ l :: after) {w : Wire} (inside : w ∈ l.reads) :
    (∃ i < n, w.input? = some i) ∨ w ∈ before.map Link.writes := by
  induction g generalizing after with
  | empty => simp at split
  | input _ _ ih =>
    obtain ⟨i, below, source⟩ | earlier := ih split
    · exact .inl ⟨i, by omega, source⟩
    · exact .inr earlier
  | @link n links ends reads others v grown taken _ _ ih =>
    -- What the last link reads was open before it; any other link stood there already.
    rcases List.eq_nil_or_concat after with rfl | ⟨shorter, last, rfl⟩
    · obtain ⟨rfl, same⟩ := List.append_inj' split rfl
      cases same
      have taken := taken.mem_iff.mpr (List.mem_append_left _ inside)
      exact grown.known (List.mem_append_right _ taken)
    · have split' : links ++ [⟨reads, v⟩] = (before ++ l :: shorter) ++ [last] := by
        simpa using split
      exact ih (List.append_inj_left' split' rfl)

theorem readOnce (g : Grown n links ends) {w : Wire} (inside : w ∈ links.map Link.writes)
    (closed : w ∉ ends) : (links.flatMap Link.reads).count w = 1 := by
  obtain ⟨streams, inputs, balance⟩ := g.balanced
  have foreign : w ∉ streams := by
    intro stream
    have listed : w.input? ∈ (List.range n).map some := by
      rw [← inputs]
      exact List.mem_map_of_mem stream
    simp [g.written w inside] at listed
  have counts := balance.count_eq w
  rw [List.count_append, List.count_append, List.count_eq_zero.mpr closed,
    List.count_eq_zero.mpr foreign, List.count_eq_one_of_mem g.distinct inside] at counts
  omega

theorem inputOnce (g : Grown n links ends) {i : Nat} (below : i < n) :
    ((links.flatMap Link.reads ++ ends).filterMap Wire.input?).count i = 1 := by
  obtain ⟨streams, inputs, balance⟩ := g.balanced
  have sources : streams.filterMap Wire.input? = List.range n := by
    have all := congrArg (List.filterMap id) inputs
    simpa [List.filterMap_map] using all
  have inner : (links.map Link.writes).filterMap Wire.input? = [] :=
    List.filterMap_eq_nil_iff.mpr g.written
  rw [(balance.filterMap _).count_eq, List.filterMap_append, sources, inner, List.append_nil]
  exact List.count_eq_one_of_mem List.nodup_range (List.mem_range.mpr below)

end Grown

end OverlayMotion.Graph
