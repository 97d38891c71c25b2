import Mathlib.Data.List.Basic
import Provision.Stack.Report

/-!
# What a text says of a status

On the wire a status is the word of its action, an underscore and the word of its state, and one of
the words for states has an underscore itself. No two of these words end in the same letter, so a
text can be taken apart in one way at most (`split_unique`), whatever the action is called. Hence
a text is read exactly if it has the form of a status, and is written again as it was; and a status
is read back unless its action is called nothing, or goes by the name of an action that has a word
of its own (`ofText?_exact`).
-/

namespace Provision

namespace StackAction

variable {a : StackAction} {word : String}

/-- The words of the actions that are told apart. -/
def ownWords : List String :=
  ["INIT", "CREATE", "UPDATE", "DELETE", "ROLLBACK", "SUSPEND", "RESUME", "CHECK"]

theorem word_ofWord (word : String) : (ofWord word).word = word := by
  unfold ofWord
  split_ifs with h h h h h h h h
  all_goals first | exact h.symm | rfl

theorem ofWord_of_notMem (h : word ∉ ownWords) : ofWord word = .other word := by
  simp only [ownWords, List.mem_cons, List.not_mem_nil, or_false, not_or] at h
  simp [ofWord, h]

theorem ofWord_ne_other (h : word ∈ ownWords) : ofWord word ≠ .other word := by
  simp only [ownWords, List.mem_cons, List.not_mem_nil, or_false] at h
  rcases h with rfl | rfl | rfl | rfl | rfl | rfl | rfl | rfl <;> decide

/-- The word of an action names this action, unless another one has it for its own. -/
theorem ofWord_word_iff : ofWord a.word = a ↔ ∀ word, a = .other word → word ∉ ownWords := by
  cases a with
  | other word =>
    constructor
    · rintro h _ ⟨⟩ hmem
      exact ofWord_ne_other hmem h
    · exact fun h => ofWord_of_notMem (h word rfl)
  | _ => exact iff_of_true (by decide) nofun

/-- Only an action without a word of its own can be called nothing. -/
theorem word_eq_empty_iff : a.word = "" ↔ a = .other "" := by
  cases a <;> simp [StackAction.word]

end StackAction

namespace StackState

/-- The last letter tells the words apart. -/
theorem getLast?_word_inj {s t : StackState}
    (h : s.word.toList.getLast? = t.word.toList.getLast?) : s = t := by
  revert h
  cases s <;> cases t <;> decide

end StackState

namespace StackStatus

variable {text word other : String} {s t : StackState} {st : StackStatus}

theorem dropSuffix?_eq_some_iff {suffix cs rest : List Char} :
    dropSuffix? suffix cs = some rest ↔ cs = rest ++ suffix := by
  unfold dropSuffix?
  split
  · rename_i h
    obtain ⟨before, rfl⟩ := List.isSuffixOf_iff_suffix.1 h
    simp
  · rename_i h
    refine iff_of_false nofun ?_
    rintro rfl
    exact h (List.isSuffixOf_iff_suffix.2 (List.suffix_append rest suffix))

theorem actionBefore?_eq_some_iff :
    actionBefore? s text = some word ↔ word ≠ "" ∧ text = word ++ "_" ++ s.word := by
  have hdrop (word : String) : dropSuffix? ('_' :: s.word.toList) text.toList = some word.toList
      ↔ text = word ++ "_" ++ s.word := by
    rw [dropSuffix?_eq_some_iff, ← String.toList_inj]
    simp
  unfold actionBefore?
  rw [← hdrop]
  rcases dropSuffix? ('_' :: s.word.toList) text.toList with _ | _ | ⟨c, cs⟩
  · simp
  · refine iff_of_false nofun fun h => h.1 ?_
    rw [← String.toList_inj, ← Option.some_inj, ← h.2]
    rfl
  · rw [Option.some_inj, Option.some_inj, ← String.toList_inj, String.toList_ofList]
    refine ⟨fun h => ⟨?_, h⟩, And.right⟩
    rintro rfl
    cases h

/-- A text can be taken apart in one way at most. -/
theorem split_unique (h : word ++ "_" ++ s.word = other ++ "_" ++ t.word) :
    word = other ∧ s = t := by
  have hlast (word : String) (s : StackState) :
      (word ++ "_" ++ s.word).toList.getLast? = s.word.toList.getLast? := by
    rw [String.toList_append, List.getLast?_append]
    cases s <;> rfl
  obtain rfl : s = t := StackState.getLast?_word_inj (by rw [← hlast word, h, hlast])
  simpa using h

theorem ofText?_eq_some_iff : ofText? text = some st ↔
    ∃ word, word ≠ "" ∧ text = word ++ "_" ++ st.state.word ∧ st.action = .ofWord word := by
  have hread {st : StackStatus} (h : ofText? text = some st) :
      ∃ word, word ≠ "" ∧ text = word ++ "_" ++ st.state.word ∧ st.action = .ofWord word := by
    obtain ⟨s, -, hs⟩ := List.exists_of_findSome?_eq_some h
    obtain ⟨word, hword, rfl⟩ := Option.map_eq_some_iff.1 hs
    obtain ⟨hne, htext⟩ := actionBefore?_eq_some_iff.1 hword
    exact ⟨word, hne, htext, rfl⟩
  refine ⟨hread, ?_⟩
  rintro ⟨word, hne, rfl, haction⟩
  -- Some state is found, and there is no other than the one that the text was made with.
  have hsome : (ofText? (word ++ "_" ++ st.state.word)).isSome = true := by
    refine List.findSome?_isSome_iff.2 ⟨st.state, by cases st.state <;> decide, ?_⟩
    rw [actionBefore?_eq_some_iff.2 ⟨hne, rfl⟩]
    rfl
  obtain ⟨found, hfound⟩ := Option.isSome_iff_exists.1 hsome
  obtain ⟨other, -, htext, hother⟩ := hread hfound
  obtain ⟨rfl, hstate⟩ := split_unique htext
  rw [hfound, Option.some_inj]
  cases found
  cases st
  simp_all

theorem text_of_ofText? (h : ofText? text = some st) : st.text = text := by
  obtain ⟨word, -, rfl, haction⟩ := ofText?_eq_some_iff.1 h
  rw [StackStatus.text, haction, StackAction.word_ofWord]

theorem ofText?_text_iff : ofText? st.text = some st ↔
    ∀ word, st.action = .other word → word ≠ "" ∧ word ∉ StackAction.ownWords := by
  have hsplit : (∃ word, word ≠ "" ∧ st.text = word ++ "_" ++ st.state.word
        ∧ st.action = .ofWord word)
      ↔ st.action.word ≠ "" ∧ StackAction.ofWord st.action.word = st.action := by
    constructor
    · rintro ⟨word, hne, htext, haction⟩
      obtain ⟨rfl, -⟩ := split_unique htext
      exact ⟨hne, haction.symm⟩
    · rintro ⟨hne, haction⟩
      exact ⟨_, hne, rfl, haction.symm⟩
  rw [ofText?_eq_some_iff, hsplit, Ne, StackAction.word_eq_empty_iff, StackAction.ofWord_word_iff]
  constructor
  · rintro ⟨hne, hown⟩ word haction
    refine ⟨?_, hown word haction⟩
    rintro rfl
    exact hne haction
  · exact fun h => ⟨fun haction => (h "" haction).1 rfl, fun word haction => (h word haction).2⟩

/-- A text is read exactly if it is a word, an underscore and the word of a state; it is then taken
apart there, and the status is written as the very text. A status that is written is read back
exactly if its action is not called nothing and does not have, as another one, the word of an action
that is told apart. -/
theorem ofText?_exact :
    (∀ text, (∃ st, ofText? text = some st)
      ↔ ∃ (word : String) (s : StackState), word ≠ "" ∧ text = word ++ "_" ++ s.word)
    ∧ (∀ (word : String) (s : StackState), word ≠ "" →
        ofText? (word ++ "_" ++ s.word) = some ⟨.ofWord word, s⟩)
    ∧ (∀ text st, ofText? text = some st → st.text = text ∧ st.toValue = .string text)
    ∧ ∀ st : StackStatus, ofText? st.text = some st
        ↔ ¬ ∃ word, st.action = .other word ∧ (word = "" ∨ word ∈ StackAction.ownWords) := by
  have hread (word : String) (s : StackState) (hne : word ≠ "") :
      ofText? (word ++ "_" ++ s.word) = some ⟨.ofWord word, s⟩ :=
    ofText?_eq_some_iff.2 ⟨word, hne, rfl, rfl⟩
  refine ⟨fun text => ⟨?_, ?_⟩, hread, fun text st h => ?_, fun st => ?_⟩
  · rintro ⟨st, h⟩
    obtain ⟨word, hne, htext, -⟩ := ofText?_eq_some_iff.1 h
    exact ⟨word, st.state, hne, htext⟩
  · rintro ⟨word, s, hne, rfl⟩
    exact ⟨_, hread word s hne⟩
  · have htext := text_of_ofText? h
    exact ⟨htext, congrArg Value.string htext⟩
  · rw [ofText?_text_iff]
    push Not
    rfl

example : ofText? "X_IN_PROGRESS_COMPLETE" = some ⟨.other "X_IN_PROGRESS", .complete⟩ := by decide

end StackStatus

end Provision
