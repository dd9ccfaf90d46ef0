import Blueprint.Proofs.Cursor.FlowLine
import Blueprint.Proofs.Text.Strings

/-!
# Cursors inside of strings

A quote that is open stands in the text, outside of strings (`Text.exists_of_openQuote?`), and what
follows it up to the cursor is the content of a string. In flow style the slot there is a key, a
value or the content of a string, told by what stands before the quote.

There is one exception. Whether the cursor is between the brackets of an empty container is asked
first, and the characters next to the cursor are looked at without regard to strings. So brackets
that are content of the string are taken for a container, and this is the only way to an empty
container inside of a string (`Slot.detect_in_string`).
-/

set_option autoImplicit false

namespace Blueprint

open Text

/-- An open quote stands in the text, and outside of strings. -/
theorem Text.exists_of_openQuote? {text : List Char} {quote : Nat}
    (opened : openQuote? text = some quote) :
    ∃ lead content, text = lead ++ '"' :: content ∧ lead.length = quote ∧
      endsOutside lead = true := by
  induction text using List.reverseRecOn with
  | nil => cases opened
  | append_singleton front char ih =>
      rw [openQuote?_concat] at opened
      by_cases toggles : char = '"' ∧ endsEscaping front = false
      · rw [if_pos toggles] at opened
        cases before : openQuote? front with
        | some earlier =>
            rw [before] at opened
            cases opened
        | none =>
            rw [before] at opened
            exact ⟨front, [], by rw [toggles.1], Option.some.inj opened,
              endsOutside_iff.mpr before⟩
      · rw [if_neg toggles] at opened
        obtain ⟨lead, content, rfl, length, outside⟩ := ih opened
        exact ⟨lead, content ++ [char], List.append_assoc _ _ _, length, outside⟩

namespace Slot

/-- What stands before the quote tells a key, a value or the content of a string. -/
theorem inString_mem (lead : List Char) (container : Option Container) :
    inString lead container ∈ [keyField, valueField, stringContent] := by
  rw [inString]
  split
  · decide
  · decide
  · decide
  · split
    · decide
    · decide

/-- **Inside of a string only brackets of its content make an empty container.** At a cursor behind
an open quote in flow style, the slot is that of an empty container if and only if the content of the
string ends, blanks aside, with an opening bracket and the text after the cursor begins, blanks
aside, with the closing bracket of the same kind. Otherwise it is a key, a value or the content of a
string. -/
theorem detect_in_string (style : Style) (flow : style.isFlow = true) {before : List Char}
    {quote : Nat} (opened : openQuote? before = some quote) (after : List Char)
    (container : Option Container) :
    (detect style before after container = emptyContainer ↔ ∃ bracket : Container,
      (trimEnd (before.drop (quote + 1))).getLast? = some bracket.opener ∧
        (trimStart after).head? = some bracket.closer) ∧
      (detect style before after container ≠ emptyContainer →
        detect style before after container ∈ [keyField, valueField, stringContent]) := by
  obtain ⟨lead, content, rfl, rfl, -⟩ := exists_of_openQuote? opened
  have rest : (lead ++ '"' :: content).drop (lead.length + 1) = content := by
    rw [← List.drop_drop, List.drop_left, List.drop_one, List.tail_cons]
  rw [rest, ← isBetweenBrackets_iff, detect_of_isFlow flow, inFlow, isBetweenBrackets_append_quote]
  cases between : isBetweenBrackets content after with
  | true =>
      rw [if_pos rfl]
      exact ⟨iff_of_true rfl rfl, fun other => absurd rfl other⟩
  | false =>
      rw [if_neg Bool.false_ne_true, opened]
      have member := inString_mem ((lead ++ '"' :: content).take lead.length)
        (((openBracket? (lead ++ '"' :: content)).map containerOf).or container)
      refine ⟨iff_of_false ?_ Bool.false_ne_true, fun _ => member⟩
      intro same
      dsimp only at same
      rw [same] at member
      exact absurd member (by decide)

/-- In a string that ends with a bracket that is closed, a value is typed. -/
theorem detect_in_string_closed :
    openQuote? "\x7b\"a\": \"[1]".toList = some 6 ∧
      detect .jsonc "\x7b\"a\": \"[1]".toList "]\"\x7d".toList none ∈
        [keyField, valueField, stringContent] := by
  have opened : openQuote? "\x7b\"a\": \"[1]".toList = some 6 := by decide
  obtain ⟨-, otherwise⟩ := detect_in_string .jsonc rfl opened "]\"\x7d".toList none
  exact ⟨opened, otherwise (by decide)⟩

/-- A bracket typed into a string that is a value, with its partner behind the cursor, is taken for
an empty container. -/
theorem detect_bracket_in_string :
    openQuote? "\x7b\"a\": \"[".toList = some 6 ∧
      detect .jsonc "\x7b\"a\": \"[".toList "]\"\x7d".toList none = emptyContainer := by
  decide

end Slot

end Blueprint
