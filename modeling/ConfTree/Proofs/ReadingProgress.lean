import ConfTree.Proofs.LoopPasses
import ConfTree.Proofs.UniformDocument

namespace ConfTree

def Cursor.Reaches (cursor : Cursor) (least : Nat) (after : Cursor) : Prop :=
  ∃ taken : Text, least ≤ taken.length ∧ cursor.Moves taken after

namespace Cursor

variable {cursor between after : Cursor} {least more : Nat}

theorem Reaches.trans (h : cursor.Reaches least between) (hmore : between.Reaches more after) :
    cursor.Reaches (least + more) after := by
  obtain ⟨taken, hleast, hmoves⟩ := h
  obtain ⟨further, hfurther, hthen⟩ := hmore
  refine ⟨taken ++ further, ?_, hmoves.trans hthen⟩
  rw [List.length_append]
  exact Nat.add_le_add hleast hfurther

theorem Reaches.mono (h : cursor.Reaches more after) (hle : least ≤ more) :
    cursor.Reaches least after := by
  obtain ⟨taken, hmore, hmoves⟩ := h
  exact ⟨taken, Nat.le_trans hle hmore, hmoves⟩

theorem Reaches.offset_le (h : cursor.Reaches least after) :
    cursor.offset + least ≤ after.offset := by
  obtain ⟨taken, hleast, hrest, rfl⟩ := h
  have hlength : (cursor.rest.take taken.length).length = taken.length := by
    rw [hrest, List.take_left]
  rw [advance, hlength]
  exact Nat.add_le_add_left hleast _

theorem Reaches.length_rest_le (h : cursor.Reaches least after) :
    after.rest.length + least ≤ cursor.rest.length := by
  obtain ⟨taken, hleast, hrest, -⟩ := h
  have hlength := congrArg List.length hrest
  rw [List.length_append] at hlength
  omega

end Cursor

/-- A reading that succeeds gets over at least a number of characters, and one that fails does not
go back. -/
def Gains {α σ : Type} (place : σ → Cursor) (least : Nat) (start : σ) :
    EStateM.Result ReadError σ α → Prop
  | .ok _ after => (place start).Reaches least (place after)
  | .error _ left => (place start).Reaches 0 (place left)

namespace Gains

variable {α β σ : Type} {place : σ → Cursor} {least more : Nat} {start : σ}

theorem of_ok {result : EStateM.Result ReadError σ α} (h : Gains place 0 start result)
    (hok : ∀ value after, result = .ok value after → (place start).Reaches least (place after)) :
    Gains place least start result := by
  cases result with
  | ok value after => exact hok value after rfl
  | error error left => exact h

theorem bind {first : EStateM ReadError σ α} {next : α → EStateM ReadError σ β}
    (hfirst : Gains place least start (first start))
    (hnext : ∀ value between, first start = .ok value between →
      Gains place more between (next value between)) :
    Gains place (least + more) start ((first >>= next) start) := by
  cases hread : first start with
  | error error left =>
      rw [hread] at hfirst
      rw [Reading.bind_of_error hread]
      exact hfirst
  | ok value between =>
      have hthen := hnext value between hread
      rw [hread] at hfirst
      rw [Reading.bind_of_ok hread]
      cases hresult : next value between with
      | ok result after =>
          rw [hresult] at hthen
          exact Cursor.Reaches.trans hfirst hthen
      | error error left =>
          rw [hresult] at hthen
          exact (Cursor.Reaches.trans hfirst hthen).mono (Nat.zero_le _)

end Gains

namespace Reading

variable {α : Type} {settings : Settings} {constants : Constants} {member : Reading Value}
  {limit : Nat}

theorem IsUniform.gains {reading : Reading α} (h : IsUniform reading) (cursor : Cursor) :
    Gains id 0 cursor (reading cursor) := by
  obtain ⟨count, -, verdict, hsettles⟩ := h cursor.rest
  rw [hsettles cursor rfl]
  cases verdict with
  | ok value => exact ⟨_, Nat.zero_le _, cursor.moves_take count⟩
  | error failure => exact ⟨_, Nat.zero_le _, cursor.moves_take count⟩

theorem gains_of_ensures {reading : Reading α} {relation : Text → Text → α → Prop}
    (huniform : IsUniform reading) (hensures : Ensures reading relation)
    (hne : ∀ text rest result, relation text rest result → text ≠ []) (cursor : Cursor) :
    Gains id 1 cursor (reading cursor) := by
  refine (huniform.gains cursor).of_ok fun result after hok => ?_
  obtain ⟨text, hmoves, hrelation⟩ := hensures cursor after result hok
  exact ⟨text, List.length_pos_of_ne_nil (hne text _ result hrelation), hmoves⟩

/-! Values. -/

theorem written_ne_nil {term : Term} (h : term.IsValid settings) : term.written ≠ [] := by
  obtain ⟨c, tail, hwritten, -⟩ := Term.exists_cons_of_isValid h
  simp [hwritten]

theorem Spells.ne_nil {text rest : Text} {result : Value}
    (h : Spells settings constants limit text rest result) : text ≠ [] := by
  obtain ⟨gap, term, -, hterm, -, rfl, -⟩ := h
  simp [written_ne_nil hterm]

theorem gains_quotedText (cursor : Cursor) : Gains id 1 cursor (quotedText cursor) := by
  refine gains_of_ensures isUniform_quotedText ensures_quotedText ?_ cursor
  rintro _ _ _ ⟨gap, content, -, -, rfl, -⟩
  simp [Term.written]

theorem gains_number (fractionRequired : Bool) (cursor : Cursor) :
    Gains id 1 cursor (number fractionRequired cursor) := by
  refine gains_of_ensures (isUniform_number _) (ensures_number _) ?_ cursor
  rintro _ _ _ ⟨literal, hwell, hrequired, rfl, -⟩
  have hvalid : (Term.number literal).IsValid ⟨fractionRequired⟩ := ⟨hwell, hrequired⟩
  exact written_ne_nil hvalid

theorem gains_expression (constants : Constants) (cursor : Cursor) :
    Gains id 1 cursor (expression constants cursor) := by
  refine gains_of_ensures (isUniform_expression _) (ensures_expression _) ?_ cursor
  rintro _ _ _ ⟨gap, body, -, -, rfl, -⟩
  simp [Term.written]

theorem gains_valueWithin (settings : Settings) (constants : Constants) (depth : Nat)
    (cursor : Cursor) : Gains id 1 cursor (valueWithin settings constants depth cursor) :=
  gains_of_ensures (isUniform_valueWithin _ _ _) (ensures_valueWithin _ _ _)
    (fun _ _ _ => Spells.ne_nil) cursor

theorem gains_list (settings : Settings) (constants : Constants) (depth : Nat) (cursor : Cursor) :
    Gains id 1 cursor (list (valueWithin settings constants depth) cursor) :=
  gains_of_ensures (isUniform_list (isUniform_valueWithin _ _ _))
    (ensures_list (ensures_valueWithin _ _ _)) (fun _ _ _ => Spells.ne_nil) cursor

theorem gains_mapping (settings : Settings) (constants : Constants) (depth : Nat)
    (cursor : Cursor) : Gains id 1 cursor (mapping (valueWithin settings constants depth) cursor) :=
  gains_of_ensures (isUniform_mapping (isUniform_valueWithin _ _ _))
    (ensures_mapping (ensures_valueWithin _ _ _)) (fun _ _ _ => Spells.ne_nil) cursor

theorem gains_entry (settings : Settings) (constants : Constants) (depth : Nat) (cursor : Cursor) :
    Gains id 1 cursor (entry (valueWithin settings constants depth) cursor) := by
  refine gains_of_ensures (isUniform_entry (isUniform_valueWithin _ _ _))
    (ensures_entry (ensures_valueWithin settings constants depth)) ?_ cursor
  rintro _ _ _ ⟨beforeKey, beforeColon, gap, term, -, -, -, -, hterm, rfl, -⟩
  simp

/-! Passes over the members of collections. -/

def itemPass (member : Reading Value) (before : List Value) : Reading (ForInStep (List Value)) := do
  let item ← member
  if ← continues ';' ']' .expectedListSeparator then
    pure (.yield (before ++ [item]))
  else
    pure (.done (before ++ [item]))

def entryPass (member : Reading Value) (before : Entries) : Reading (ForInStep Entries) := do
  let (key, value) ← entry member
  if ← continues ',' '\x7d' .expectedMappingSeparator then
    pure (.yield (before.put key value))
  else
    pure (.done (before.put key value))

theorem gains_itemPass (settings : Settings) (constants : Constants) (depth : Nat)
    (before : List Value) (cursor : Cursor) :
    Gains id 1 cursor (itemPass (valueWithin settings constants depth) before cursor) := by
  change Gains id (1 + 0) cursor _
  refine (gains_valueWithin settings constants depth cursor).bind fun item here _ => ?_
  exact ((isUniform_continues _ _ _).bind fun _ =>
    .ite (isUniform_pure _) (isUniform_pure _)).gains here

theorem gains_entryPass (settings : Settings) (constants : Constants) (depth : Nat)
    (before : Entries) (cursor : Cursor) :
    Gains id 1 cursor (entryPass (valueWithin settings constants depth) before cursor) := by
  change Gains id (1 + 0) cursor _
  refine (gains_entry settings constants depth cursor).bind fun found here _ => ?_
  exact ((isUniform_continues _ _ _).bind fun _ =>
    .ite (isUniform_pure _) (isUniform_pure _)).gains here

theorem length_rest_lt_of_gains {α : Type} {pass : α → Reading (ForInStep α)}
    (h : ∀ before cursor, Gains id 1 cursor (pass before cursor)) {before next : α}
    {cursor between : Cursor} (hyield : pass before cursor = .ok (.yield next) between) :
    between.rest.length < cursor.rest.length := by
  have hgains := h before cursor
  rw [hyield] at hgains
  exact Cursor.Reaches.length_rest_le hgains

/-! Whole loops.  Their recursions are bounded by the length of the text still to be read, and what
they answer where it is used up is what one more pass would come to. -/

theorem items_succ (member : Reading Value) (bound : Nat) (before : List Value) :
    ((before ++ ·) <$> items member (bound + 1)) = (itemPass member before >>=
      Loops.continueWith fun found => (found ++ ·) <$> items member bound) := by
  simp only [items, itemPass, map_bind, bind_assoc]
  refine bind_congr fun item => bind_congr fun further => ?_
  cases further with
  | true => simp [Loops.continueWith]
  | false => simp [Loops.continueWith]

theorem entries_succ (member : Reading Value) (bound : Nat) (before : Entries) :
    entries member (bound + 1) before =
      (entryPass member before >>= Loops.continueWith (entries member bound)) := by
  simp only [entries, entryPass, bind_assoc]
  refine bind_congr fun found => bind_congr fun further => ?_
  cases further with
  | true => simp [Loops.continueWith]
  | false => simp [Loops.continueWith]

theorem skip_of_end {cursor : Cursor} (hend : cursor.rest = []) : skip cursor = .ok () cursor := by
  have hlength : Insignificant.length? .between cursor.rest = some 0 := by rw [hend]; rfl
  rw [skip_eq_of_some hlength]
  rfl

theorem valueWith_of_end {cursor : Cursor} (hend : cursor.rest = []) :
    valueWith settings constants member cursor =
      .error (.located .missingValue cursor.position) cursor := by
  have hnext : next? cursor = .ok none cursor := by rw [next?, hend]; rfl
  rw [valueWith, bind_of_ok (skip_of_end hend), bind_of_ok hnext]
  rfl

theorem entry_of_end {cursor : Cursor} (hend : cursor.rest = []) :
    entry member cursor = .error (.located .expectedName cursor.position) cursor := by
  have hname : name cursor = .ok [] cursor := by
    change EStateM.Result.ok (cursor.rest.takeWhile _) _ = _
    rw [hend]
    rfl
  rw [entry, bind_of_ok (skip_of_end hend), bind_of_ok hname]
  rfl

theorem exists_loops_items (settings : Settings) (constants : Constants) (depth : Nat)
    (cursor : Cursor) :
    ∃ count ≤ cursor.rest.length + 1,
      Loops (itemPass (valueWithin settings constants (depth + 1))) count [] cursor
        (items (valueWithin settings constants (depth + 1)) cursor.rest.length cursor) := by
  have hloops := exists_loops_of_size (fun place : Cursor => place.rest.length)
    (length_rest_lt_of_gains (gains_itemPass settings constants (depth + 1)))
    (fun bound before =>
      (before ++ ·) <$> items (valueWithin settings constants (depth + 1)) bound)
    (fun bound before place => congrFun (items_succ _ bound before) place)
    (fun before place hempty => ?_) [] cursor
  · simpa using hloops
  · have hstop : valueWithin settings constants (depth + 1) place = _ :=
      valueWith_of_end (List.length_eq_zero_iff.mp hempty)
    have hone : items (valueWithin settings constants (depth + 1)) 1 place = _ :=
      bind_of_error hstop _
    have hzero : items (valueWithin settings constants (depth + 1)) 0 place = _ := rfl
    rw [map_eq_pure_bind, map_eq_pure_bind, bind_of_error hone, bind_of_error hzero]

theorem exists_loops_entries (settings : Settings) (constants : Constants) (depth : Nat)
    (cursor : Cursor) :
    ∃ count ≤ cursor.rest.length + 1,
      Loops (entryPass (valueWithin settings constants depth)) count [] cursor
        (entries (valueWithin settings constants depth) cursor.rest.length [] cursor) := by
  refine exists_loops_of_size (fun place : Cursor => place.rest.length)
    (length_rest_lt_of_gains (gains_entryPass settings constants depth))
    (entries (valueWithin settings constants depth))
    (fun bound before place => congrFun (entries_succ _ bound before) place)
    (fun before place hempty => ?_) [] cursor
  have hstop : entry (valueWithin settings constants depth) place = _ :=
    entry_of_end (List.length_eq_zero_iff.mp hempty)
  exact bind_of_error hstop _

end Reading

end ConfTree
