import ConfTree.Proofs.ReadingStep

/-!
Loops pass by pass.  A pass ends its loop or tells what the next pass starts from, and a loop goes
on until a pass ends it or fails.  No bound is set beforehand: a loop comes to an end because every
pass that goes on leaves less than it has found.
-/

namespace ConfTree

variable {α σ : Type}

/-- A loop comes to a result in a number of passes. -/
inductive Loops (pass : α → EStateM ReadError σ (ForInStep α)) :
    Nat → α → σ → EStateM.Result ReadError σ α → Prop where
  | ends {before last : α} {start after : σ} (h : pass before start = .ok (.done last) after) :
      Loops pass 1 before start (.ok last after)
  | fails {before : α} {start left : σ} {error : ReadError}
      (h : pass before start = .error error left) :
      Loops pass 1 before start (.error error left)
  | goesOn {count : Nat} {before next : α} {start between : σ}
      {result : EStateM.Result ReadError σ α}
      (h : pass before start = .ok (.yield next) between)
      (hnext : Loops pass count next between result) :
      Loops pass (count + 1) before start result

namespace Loops

variable {pass : α → EStateM ReadError σ (ForInStep α)} {count : Nat} {before : α} {start : σ}
  {result : EStateM.Result ReadError σ α}

theorem exists_last_pass {last : α} {after : σ}
    (h : Loops pass count before start (.ok last after)) :
    ∃ state place, pass state place = .ok (.done last) after := by
  generalize hresult : EStateM.Result.ok last after = result at h
  induction h with
  | ends h =>
      obtain ⟨rfl, rfl⟩ := EStateM.Result.ok.inj hresult
      exact ⟨_, _, h⟩
  | fails _ => cases hresult
  | goesOn _ _ ih => exact ih hresult

/-- What comes of a pass in a recursion with a bound. -/
def continueWith (next : α → EStateM ReadError σ α) : ForInStep α → EStateM ReadError σ α
  | .done last => pure last
  | .yield state => next state

theorem eq_of_le {bounded : Nat → α → EStateM ReadError σ α}
    (hbounded : ∀ bound state place, bounded (bound + 1) state place =
      (pass state >>= continueWith (bounded bound)) place)
    (h : Loops pass count before start result) {bound : Nat} (hcount : count ≤ bound) :
    bounded bound before start = result := by
  induction h generalizing bound with
  | ends h =>
      obtain ⟨bound, rfl⟩ := Nat.exists_eq_add_of_lt hcount
      rw [Nat.zero_add, hbounded, Reading.bind_of_ok h]
      rfl
  | fails h =>
      obtain ⟨bound, rfl⟩ := Nat.exists_eq_add_of_lt hcount
      rw [Nat.zero_add, hbounded, Reading.bind_of_error h]
  | goesOn h _ ih =>
      obtain ⟨bound, rfl⟩ := Nat.exists_eq_add_of_lt (Nat.lt_of_succ_le hcount)
      rw [hbounded, Reading.bind_of_ok h]
      exact ih (Nat.le_add_right _ _)

end Loops

/-- A loop comes to an end if every pass that goes on leaves less than it has found. -/
theorem exists_loops {pass : α → EStateM ReadError σ (ForInStep α)} (size : σ → Nat)
    (hless : ∀ {state next : α} {place between : σ},
      pass state place = .ok (.yield next) between → size between < size place)
    (before : α) (start : σ) :
    ∃ count ≤ size start + 1, ∃ result, Loops pass count before start result := by
  induction hsize : size start using Nat.strongRecOn generalizing before start with
  | ind _ ih =>
      subst hsize
      cases hpass : pass before start with
      | error error left => exact ⟨1, by omega, _, .fails hpass⟩
      | ok step between =>
          cases step with
          | done last => exact ⟨1, by omega, _, .ends hpass⟩
          | yield next =>
              have hdrop := hless hpass
              obtain ⟨count, hcount, result, hloops⟩ := ih _ hdrop next between rfl
              exact ⟨count + 1, by omega, result, .goesOn hpass hloops⟩

/-- A bound as large as what there is lasts, if one pass more comes to nothing new where nothing is
left. -/
theorem bounded_succ_of_le {pass : α → EStateM ReadError σ (ForInStep α)} (size : σ → Nat)
    (hless : ∀ {state next : α} {place between : σ},
      pass state place = .ok (.yield next) between → size between < size place)
    (bounded : Nat → α → EStateM ReadError σ α)
    (hbounded : ∀ bound state place, bounded (bound + 1) state place =
      (pass state >>= Loops.continueWith (bounded bound)) place)
    (hempty : ∀ state place, size place = 0 → bounded 1 state place = bounded 0 state place)
    (before : α) {start : σ} {bound : Nat} (hbound : size start ≤ bound) :
    bounded (bound + 1) before start = bounded bound before start := by
  induction bound generalizing before start with
  | zero => exact hempty before start (Nat.le_zero.mp hbound)
  | succ bound ih =>
      rw [hbounded (bound + 1), hbounded bound]
      cases hpass : pass before start with
      | error error left => rw [Reading.bind_of_error hpass, Reading.bind_of_error hpass]
      | ok step between =>
          rw [Reading.bind_of_ok hpass, Reading.bind_of_ok hpass]
          cases step with
          | done last => rfl
          | yield next =>
              have hdrop := hless hpass
              exact ih next (by omega)

theorem exists_loops_of_bounded {pass : α → EStateM ReadError σ (ForInStep α)} (size : σ → Nat)
    (hless : ∀ {state next : α} {place between : σ},
      pass state place = .ok (.yield next) between → size between < size place)
    (bounded : Nat → α → EStateM ReadError σ α)
    (hbounded : ∀ bound state place, bounded (bound + 1) state place =
      (pass state >>= Loops.continueWith (bounded bound)) place)
    (before : α) {start : σ} {bound : Nat} (hbound : size start < bound) :
    ∃ count ≤ size start + 1, Loops pass count before start (bounded bound before start) := by
  obtain ⟨count, hcount, result, hloops⟩ := exists_loops size hless before start
  have hresult := hloops.eq_of_le hbounded (Nat.le_trans hcount hbound)
  exact ⟨count, hcount, hresult ▸ hloops⟩

theorem exists_loops_of_size {pass : α → EStateM ReadError σ (ForInStep α)} (size : σ → Nat)
    (hless : ∀ {state next : α} {place between : σ},
      pass state place = .ok (.yield next) between → size between < size place)
    (bounded : Nat → α → EStateM ReadError σ α)
    (hbounded : ∀ bound state place, bounded (bound + 1) state place =
      (pass state >>= Loops.continueWith (bounded bound)) place)
    (hempty : ∀ state place, size place = 0 → bounded 1 state place = bounded 0 state place)
    (before : α) (start : σ) :
    ∃ count ≤ size start + 1,
      Loops pass count before start (bounded (size start) before start) := by
  rw [← bounded_succ_of_le size hless bounded hbounded hempty before (Nat.le_refl _)]
  exact exists_loops_of_bounded size hless bounded hbounded before (Nat.lt_succ_self _)

end ConfTree
