import CodeSnippets.Named
import Mathlib.Data.List.Lex
import Mathlib.Data.List.Perm.Basic

/-!
# The order of names

Texts are ordered by their code points. Where no name is given twice, sorting values by name is therefore putting them in
the one order in which their names ascend.

* `Text.Before`, `Text.le_eq_true_iff`: the order of texts.
* `Named.pairwise_names_sorted`: the names of sorted values ascend.
* `Named.IsListing`, `Named.isListing_sorted`, `Named.IsListing.unique`: the list in the order of names is the only one.
-/

namespace CodeSnippets

open Text

namespace Text

variable {s t u : Text}

/-- A text comes before another one in the order of code points: at the first place where they differ it has the lower
code point, or it ends there. -/
def Before (s t : Text) : Prop := List.Lex (fun a b : Char => a.toNat < b.toNat) s t

theorem Before.trans (hst : Before s t) (htu : Before t u) : Before s u :=
  List.lex_trans (fun hab hbc => Nat.lt_trans hab hbc) hst htu

theorem Before.asymm (h : Before s t) : ¬ Before t s :=
  List.lex_asymm (fun hab hba => Nat.lt_asymm hab hba) h

theorem not_before_self (t : Text) : ¬ Before t t := List.lex_irrefl (fun c => Nat.lt_irrefl c.toNat) t

/-- Texts are ordered by code points. -/
theorem le_eq_true_iff : le s t = true ↔ s = t ∨ Before s t := by
  induction s generalizing t with
  | nil =>
    cases t with
    | nil => simp [le]
    | cons b t => exact iff_of_true rfl (.inr .nil)
  | cons a s ih =>
    cases t with
    | nil => exact iff_of_false nofun nofun
    | cons b t =>
      have hval : a.val < b.val ↔ a.toNat < b.toNat := UInt32.lt_iff_toNat_lt
      have hcons : Before (a :: s) (b :: t) ↔ a.toNat < b.toNat ∨ a = b ∧ Before s t := List.cons_lex_cons_iff
      rw [le, Bool.or_eq_true, decide_eq_true_iff, Bool.and_eq_true, beq_iff_eq, ih, List.cons.injEq, hcons, hval]
      tauto

theorem le_trans (hst : le s t = true) (htu : le t u = true) : le s u = true := by
  rw [le_eq_true_iff] at *
  rcases hst with rfl | hst
  · exact htu
  rcases htu with rfl | htu
  · exact .inr hst
  · exact .inr (hst.trans htu)

theorem le_total (s t : Text) : le s t = true ∨ le t s = true := by
  induction s generalizing t with
  | nil => exact .inl rfl
  | cons a s ih =>
    cases t with
    | nil => exact .inr rfl
    | cons b t =>
      simp only [le, Bool.or_eq_true, decide_eq_true_iff, Bool.and_eq_true, beq_iff_eq, UInt32.lt_iff_toNat_lt]
      rcases Nat.lt_trichotomy a.val.toNat b.val.toNat with h | h | h
      · exact .inl (.inl h)
      · obtain rfl : a = b := Char.toNat_inj.1 h
        exact (ih t).imp (fun h => .inr ⟨rfl, h⟩) fun h => .inr ⟨rfl, h⟩
      · exact .inr (.inl h)

end Text

namespace Named

variable {α : Type} {t : Named α}

theorem mem_sorted {e : Text × α} : e ∈ t.sorted ↔ e ∈ t := (List.mergeSort_perm t _).mem_iff

theorem nodup_names_sorted (h : t.names.Nodup) : t.sorted.names.Nodup :=
  ((List.mergeSort_perm t _).map _).nodup_iff.2 h

/-- Where no name is given twice, the names of the sorted entries ascend. -/
theorem pairwise_names_sorted (h : t.names.Nodup) : t.sorted.names.Pairwise Before := by
  have hsorted : t.sorted.Pairwise fun a b => Text.le a.1 b.1 = true := by
    apply List.pairwise_mergeSort
    · exact fun a b c => Text.le_trans
    · exact fun a b => Bool.or_eq_true_iff.2 (Text.le_total a.1 b.1)
  have hnames : t.sorted.names.Pairwise fun s u => Text.le s u = true := List.pairwise_map.2 hsorted
  refine (hnames.and (nodup_names_sorted h)).imp ?_
  rintro a b ⟨hle, hne⟩
  exact (Text.le_eq_true_iff.1 hle).resolve_left hne

/-- The same entries in the order of their names. -/
structure IsListing (entries t : Named α) : Prop where
  perm : entries.Perm t
  ordered : entries.names.Pairwise Before

theorem isListing_sorted (h : t.names.Nodup) : IsListing t.sorted t := ⟨List.mergeSort_perm t _, pairwise_names_sorted h⟩

/-- In whatever order entries were given, there is one list of them in the order of their names. -/
theorem IsListing.unique {s entries listed : Named α} (h : IsListing entries t) (h' : IsListing listed s)
    (hperm : s.Perm t) : entries = listed := by
  have hascend : ∀ {r : Named α}, r.names.Pairwise Before → r.Pairwise fun a b => Before a.1 b.1 := List.pairwise_map.1
  have hlisted : entries.Perm listed := (h.perm.trans hperm.symm).trans h'.perm.symm
  exact hlisted.eq_of_pairwise (fun a b _ _ hab hba => absurd hba hab.asymm) (hascend h.ordered) (hascend h'.ordered)

end Named
end CodeSnippets
