import Blueprint.Proofs.Conversion.Agreement

/-!
# Single-quoted scalars

In a single-quoted scalar of YAML a quote is written twice, and nothing else is escaped
(`singleQuoted`). Reading takes the quotes at the two ends away first, and then makes one quote of
every two, from the left.

Both steps meet quotes of the text itself. One quote at each end is taken away however many follow
it (`unquote_quoted`), and since a written text has its quotes in pairs, reading from the left never
takes the second quote of one pair together with the first of the next (`undouble_double`). So every
text is read as it was meant (`ofNode_of_singleQuoted`).
-/

set_option autoImplicit false

namespace Blueprint.Fragment

namespace Yaml

/-- A text with every single quote written twice. -/
def double (text : List Char) : List Char :=
  text.flatMap fun char => if char = singleQuote then [singleQuote, singleQuote] else [char]

/-- A text as a single-quoted scalar. -/
def singleQuoted (text : List Char) : List Char := singleQuote :: (double text ++ [singleQuote])

theorem double_quote (rest : List Char) :
    double (singleQuote :: rest) = singleQuote :: singleQuote :: double rest := by
  rw [double, List.flatMap_cons, if_pos rfl]
  rfl

theorem double_cons_of_ne {char : Char} (apart : char ≠ singleQuote) (rest : List Char) :
    double (char :: rest) = char :: double rest := by
  rw [double, List.flatMap_cons, if_neg apart]
  rfl

theorem undouble_quotes (rest : List Char) :
    undouble (singleQuote :: singleQuote :: rest) = singleQuote :: undouble rest := by
  simp [undouble]

theorem undouble_cons_of_ne {char : Char} (apart : char ≠ singleQuote) (rest : List Char) :
    undouble (char :: rest) = char :: undouble rest := by
  cases rest with
  | nil => rfl
  | cons next rest => simp [undouble, apart]

/-- Undoing the doubling of quotes gives the text back. -/
theorem undouble_double (text : List Char) : undouble (double text) = text := by
  induction text with
  | nil => rfl
  | cons char rest ih =>
      by_cases quote : char = singleQuote
      · rw [quote, double_quote, undouble_quotes, ih]
      · rw [double_cons_of_ne quote, undouble_cons_of_ne quote, ih]

end Yaml

open Yaml (singleQuoted)

/-- **Single-quoted scalars are read exactly.** A node for a single-quoted scalar that stands where
the source has a text in single quotes, the quotes of the text doubled, becomes a string scalar with
that text as its value, whatever its children amount to. -/
theorem ofNode_of_singleQuoted {source : List Char} {parts : List ParseTree} {tree : ParseTree}
    {value : String} (node : IsNode "single_quote_scalar" parts tree)
    (spells : Spells source tree (singleQuoted value.toList))
    (children : List (Visited Fragment)) :
    ofNode .yaml (.ofText source) tree.label children =
      .node ((Draft.scalar value .string
        (tree.label.spanIn (.ofText source))).withConcreteKind "single_quote_scalar") := by
  have text : tree.label.textIn (.ofText source) = singleQuoted value.toList :=
    textIn_of_spells spells
  have content : Yaml.undouble
      (Text.unquote Yaml.singleQuote (tree.label.textIn (.ofText source))) = value.toList := by
    rw [text, singleQuoted, unquote_quoted, Yaml.undouble_double]
  rw [ofNode_named _ _ .yaml node.present node.sound node.named]
  simp only [ofNamed, Yaml.ofNamed, node.kind_eq, content, Yaml.scalar, String.ofList_toList]

namespace QuoteRuns

/-- A text that begins and ends with quotes. -/
def value : String := "''it's'"

/-- An entry with the text as its value. -/
def source : List Char := "né: '''''it''s'''\n".toList

/-- The parse tree of the value. -/
def tree : ParseTree := .sound "single_quote_scalar" (some "value") 5 18 []

/-- Quotes at the ends of a text are told from those around it. -/
theorem ofNode_of_singleQuoted_runs :
    IsNode "single_quote_scalar" [] tree ∧ Spells source tree (singleQuoted value.toList) ∧
      ofNode .yaml (.ofText source) tree.label [] =
        .node ((Draft.scalar value .string (.closed ⟨1, 5⟩ ⟨1, 18⟩)).withConcreteKind
          "single_quote_scalar") := by
  have node : IsNode "single_quote_scalar" [] tree := ⟨rfl, rfl, rfl, rfl, rfl⟩
  have spells : Spells source tree (singleQuoted value.toList) :=
    ⟨"né: ".toList, "\n".toList, by decide, by decide, by decide⟩
  have span : tree.label.spanIn (.ofText source) = .closed ⟨1, 5⟩ ⟨1, 18⟩ := by decide
  have read := ofNode_of_singleQuoted node spells []
  rw [span] at read
  exact ⟨node, spells, read⟩

end QuoteRuns

end Blueprint.Fragment
