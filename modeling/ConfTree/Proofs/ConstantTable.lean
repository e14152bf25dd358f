import ConfTree.Proofs.ProperValue
import Mathlib.Data.List.Nodup

namespace ConfTree

namespace Text

variable {first second third : Text}

theorem isAtMost_iff : first.isAtMost second = true ↔ ¬List.Lex (· < ·) second first := by
  rw [isAtMost, List.lex_eq_decide_lex]
  simp only [decide_eq_true_eq, Bool.not_eq_true', decide_eq_false_iff_not]

theorem isAtMost_trans (hfirst : first.isAtMost second = true)
    (hsecond : second.isAtMost third = true) : first.isAtMost third = true := by
  rw [isAtMost_iff] at *
  exact List.le_trans hfirst hsecond

theorem isAtMost_total (first second : Text) :
    first.isAtMost second = true ∨ second.isAtMost first = true := by
  rw [isAtMost_iff, isAtMost_iff]
  exact List.le_total first second

theorem isAtMost_antisymm (hle : first.isAtMost second = true)
    (hge : second.isAtMost first = true) : first = second := by
  rw [isAtMost_iff] at *
  exact List.le_antisymm hle hge

end Text

theorem Entries.mem_iff_lookup {entries : Entries} (h : (entries.map Prod.fst).Nodup) {key : Text}
    {value : Value} : (key, value) ∈ entries ↔ List.lookup key entries = some value := by
  induction entries with
  | nil => simp
  | cons entry entries ih =>
      obtain ⟨present, held⟩ := entry
      obtain ⟨hfresh, hrest⟩ := List.nodup_cons.mp h
      rw [lookup_cons, List.mem_cons, ih hrest]
      by_cases hkey : key = present
      · subst hkey
        have hnone : List.lookup key entries ≠ some value := fun hfound =>
          hfresh (List.mem_map.mpr ⟨(key, value), (ih hrest).mpr hfound, rfl⟩)
        simp [hnone, eq_comm]
      · simp [hkey]

namespace Constants

theorem lookup_table (constants : Constants) (name : Text) :
    List.lookup name constants.table = constants.valueOf? name := by
  induction constants with
  | nil => rfl
  | cons binding constants ih =>
      change List.lookup name (Entries.put binding.1 binding.2 (table constants)) = _
      rw [Entries.lookup_put, ih]
      exact (valueOf?_bind constants binding.1 name binding.2).symm

theorem nodup_table (constants : Constants) : (constants.table.map Prod.fst).Nodup := by
  induction constants with
  | nil => exact List.nodup_nil
  | cons binding constants ih => exact Value.nodup_put binding.1 binding.2 ih

theorem mem_table_iff {constants : Constants} {name : Text} {value : Value} :
    (name, value) ∈ constants.table ↔ constants.valueOf? name = some value := by
  rw [Entries.mem_iff_lookup constants.nodup_table, lookup_table]

theorem mem_listing_iff {constants : Constants} {name : Text} {value : Value} :
    (name, value) ∈ constants.listing ↔ constants.valueOf? name = some value := by
  rw [listing, (List.mergeSort_perm _ _).mem_iff, mem_table_iff]

theorem pairwise_listing (constants : Constants) :
    constants.listing.Pairwise fun left right => left.1.isAtMost right.1 = true := by
  refine List.pairwise_mergeSort ?_ ?_ constants.table
  · intro first second third
    exact Text.isAtMost_trans
  · intro first second
    rw [Bool.or_eq_true]
    exact Text.isAtMost_total first.1 second.1

/-- Constants are listed alike exactly if every name stands for the same value in them. -/
theorem listing_eq_iff {first second : Constants} :
    first.listing = second.listing ↔ ∀ name, first.valueOf? name = second.valueOf? name := by
  constructor
  · intro h name
    refine Option.ext fun value => ?_
    rw [← mem_listing_iff, h, mem_listing_iff]
  · intro h
    have hperm : first.table.Perm second.table := by
      rw [List.perm_ext_iff_of_nodup (List.Nodup.of_map _ first.nodup_table)
        (List.Nodup.of_map _ second.nodup_table)]
      rintro ⟨name, value⟩
      rw [mem_table_iff, mem_table_iff, h]
    have hsorted : first.listing.Perm second.listing :=
      (List.mergeSort_perm _ _).trans (hperm.trans (List.mergeSort_perm _ _).symm)
    refine hsorted.eq_of_pairwise ?_ first.pairwise_listing second.pairwise_listing
    rintro ⟨name, value⟩ ⟨other, held⟩ hfirst hsecond hle hge
    obtain rfl : name = other := Text.isAtMost_antisymm hle hge
    rw [mem_listing_iff, h] at hfirst
    rw [mem_listing_iff, hfirst] at hsecond
    cases hsecond
    rfl

end Constants

end ConfTree
