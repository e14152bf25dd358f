import ConfTree.Text.Basic

namespace ConfTree.Text

theorem ne_of_class {inClass : Char → Bool} {c d : Char} (hc : inClass c = true)
    (hd : inClass d = false) : c ≠ d := by
  rintro rfl
  simp [hc] at hd

theorem isDigit_eq_false_of_isNameLetter {c : Char} (h : isNameLetter c = true) :
    isDigit c = false := by
  simp only [isNameLetter, isDigit, Bool.and_eq_true, Bool.and_eq_false_iff, decide_eq_true_eq,
    decide_eq_false_iff_not, Char.le_def, UInt32.le_iff_toNat_le] at h ⊢
  have hlow : 97 ≤ c.toNat := h.1
  right
  intro hle
  have hhigh : c.toNat ≤ 57 := hle
  omega

theorem exists_cons_of_run {inClass : Char → Bool} {run : Text}
    (h : run ≠ [] ∧ ∀ c ∈ run, inClass c = true) :
    ∃ c rest, run = c :: rest ∧ inClass c = true := by
  obtain ⟨c, rest, rfl⟩ := List.exists_cons_of_ne_nil h.1
  exact ⟨c, rest, rfl, h.2 c (by simp)⟩

/-- What follows a run: nothing, or a character outside the class. -/
def EndsRun (inClass : Char → Bool) (rest : Text) : Prop :=
  ∀ c ∈ rest.head?, inClass c = false

theorem endsRun_nil (inClass : Char → Bool) : EndsRun inClass [] := by
  intro c hc
  simp at hc

theorem endsRun_cons {inClass : Char → Bool} {c : Char} {rest : Text}
    (h : inClass c = false) : EndsRun inClass (c :: rest) := by
  intro d hd
  have hcd : c = d := by simpa using hd
  exact hcd ▸ h

theorem endsRun_dropWhile (inClass : Char → Bool) (text : Text) :
    EndsRun inClass (text.dropWhile inClass) := by
  induction text with
  | nil => exact endsRun_nil inClass
  | cons c rest ih =>
      by_cases h : inClass c = true
      · simpa [List.dropWhile_cons, h] using ih
      · have hends : EndsRun inClass (c :: rest) := endsRun_cons (by simpa using h)
        simpa [List.dropWhile_cons, h] using hends

theorem takeWhile_run_append {inClass : Char → Bool} {run rest : Text}
    (hrun : ∀ c ∈ run, inClass c = true) (hrest : EndsRun inClass rest) :
    (run ++ rest).takeWhile inClass = run := by
  have hstop : rest.takeWhile inClass = [] := by
    cases rest with
    | nil => rfl
    | cons c rest => simp [hrest c (by simp)]
  rw [List.takeWhile_append_of_pos hrun, hstop, List.append_nil]

theorem dropWhile_run_append {inClass : Char → Bool} {run rest : Text}
    (hrun : ∀ c ∈ run, inClass c = true) (hrest : EndsRun inClass rest) :
    (run ++ rest).dropWhile inClass = rest := by
  have hsplit := List.takeWhile_append_dropWhile (p := inClass) (l := run ++ rest)
  rw [takeWhile_run_append hrun hrest] at hsplit
  exact List.append_cancel_left hsplit

theorem eq_of_run_append_eq {inClass : Char → Bool} {run other rest otherRest : Text}
    (hrun : ∀ c ∈ run, inClass c = true) (hother : ∀ c ∈ other, inClass c = true)
    (hrest : EndsRun inClass rest) (hotherRest : EndsRun inClass otherRest)
    (h : run ++ rest = other ++ otherRest) : run = other ∧ rest = otherRest := by
  have htake : run = other := by
    rw [← takeWhile_run_append hrun hrest, h, takeWhile_run_append hother hotherRest]
  subst htake
  exact ⟨rfl, List.append_cancel_left h⟩

theorem forall_ne_of_notMem {stop : Char} {text : Text} (h : stop ∉ text) :
    ∀ c ∈ text, decide (c ≠ stop) = true :=
  fun _ hc => decide_eq_true fun hstop => h (hstop ▸ hc)

theorem endsRun_ne {stop : Char} {rest : Text} (h : rest = [] ∨ rest.head? = some stop) :
    EndsRun (fun c => decide (c ≠ stop)) rest := by
  rcases h with rfl | hhead
  · exact endsRun_nil _
  · obtain ⟨tail, rfl⟩ := List.head?_eq_some_iff.mp hhead
    exact endsRun_cons (by simp)

theorem forall_mem_takeWhile {inClass : Char → Bool} {text : Text} :
    ∀ c ∈ text.takeWhile inClass, inClass c = true :=
  List.all_eq_true.mp List.all_takeWhile

end ConfTree.Text
