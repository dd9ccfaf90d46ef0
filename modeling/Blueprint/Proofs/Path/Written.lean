import Std.Data.String.ToNat
import Blueprint.Path.Basic

/-!
# Written paths

A path is written with a slash before each segment. The text alone tells the path when its field
names are plain (`Segment.Plain`): a name with a slash would read as two segments, and a name
written like an index would read as one. Under this condition different paths are written
differently (`Path.eq_of_render_eq`), and only the empty path is written like the root
(`Path.render_ne_root`).
-/

set_option autoImplicit false

namespace Blueprint

namespace Segment

/-- A segment that is written unmistakably: a field's name is not empty, has no slash, and is not
written like an index. -/
def Plain : Segment → Prop
  | field name => name ≠ "" ∧ '/' ∉ name.toList ∧ ∀ number : Nat, name ≠ "[" ++ number.repr ++ "]"
  | index _ => True

variable {segment other : Segment}

theorem slash_not_mem_render (plain : segment.Plain) : '/' ∉ segment.render.toList := by
  cases segment with
  | field name => exact plain.2.1
  | index number =>
      intro slash
      simp only [render, String.toList_append, Nat.toList_repr, List.mem_append] at slash
      rcases slash with (bracket | digit) | bracket
      · simp at bracket
      · exact absurd (Nat.isDigit_of_mem_toDigits (by decide) (by decide) digit) (by decide)
      · simp at bracket

theorem render_ne_empty (plain : segment.Plain) : segment.render ≠ "" := by
  cases segment with
  | field name => exact plain.1
  | index number => simp [render, ← String.toList_inj]

theorem eq_of_render_eq (plain : segment.Plain) (otherPlain : other.Plain)
    (same : segment.render = other.render) : segment = other := by
  cases segment with
  | field name =>
      cases other with
      | field otherName => exact congrArg field same
      | index number => exact absurd same (plain.2.2 number)
  | index number =>
      cases other with
      | field name => exact absurd same.symm (otherPlain.2.2 number)
      | index otherNumber =>
          rw [render, render, ← String.toList_inj] at same
          simp only [String.toList_append, List.append_cancel_left_eq,
            List.append_cancel_right_eq, String.toList_inj, Nat.repr_inj] at same
          rw [same]

end Segment

namespace Path

theorem toList_render_cons (segment : Segment) (rest : Path) :
    (render (segment :: rest)).toList =
      '/' :: (segment.render.toList ++ (render rest).toList) := by
  simp [render, String.toList_append]

/-- The text before the next slash is the first segment. -/
theorem takeWhile_render {segment : Segment} (plain : segment.Plain) (rest : Path) :
    (segment.render.toList ++ (render rest).toList).takeWhile (· != '/') =
      segment.render.toList := by
  have noSlash : ∀ char ∈ segment.render.toList, (char != '/') = true := by
    intro char member
    refine bne_iff_ne.mpr fun slash => Segment.slash_not_mem_render plain ?_
    exact slash ▸ member
  rw [List.takeWhile_append_of_pos noSlash]
  cases rest with
  | nil => exact List.append_nil _
  | cons next later =>
      rw [toList_render_cons, List.takeWhile_cons_of_neg (by decide), List.append_nil]

/-- Paths with plain segments that are written alike are alike. -/
theorem eq_of_render_eq {path other : Path} (plain : ∀ segment ∈ path, segment.Plain)
    (otherPlain : ∀ segment ∈ other, segment.Plain) (same : path.render = other.render) :
    path = other := by
  induction path generalizing other with
  | nil =>
      cases other with
      | nil => rfl
      | cons first rest =>
          have texts := congrArg String.toList same
          rw [toList_render_cons] at texts
          cases texts
  | cons first rest ih =>
      cases other with
      | nil =>
          have texts := congrArg String.toList same
          rw [toList_render_cons] at texts
          cases texts
      | cons otherFirst otherRest =>
          obtain ⟨firstPlain, restPlain⟩ := List.forall_mem_cons.mp plain
          obtain ⟨otherFirstPlain, otherRestPlain⟩ := List.forall_mem_cons.mp otherPlain
          have texts := congrArg String.toList same
          rw [toList_render_cons, toList_render_cons] at texts
          have tails := (List.cons.inj texts).2
          have heads := congrArg (List.takeWhile (· != '/')) tails
          rw [takeWhile_render firstPlain, takeWhile_render otherFirstPlain] at heads
          rw [heads] at tails
          have firstSame := Segment.eq_of_render_eq firstPlain otherFirstPlain
            (String.toList_inj.mp heads)
          have restSame := String.toList_inj.mp (List.append_cancel_left tails)
          rw [firstSame, ih restPlain otherRestPlain restSame]

/-- A path with plain segments is written neither as nothing nor as a lone slash. -/
theorem render_ne_root {path : Path} (plain : ∀ segment ∈ path, segment.Plain)
    (notRoot : path ≠ []) : path.render ≠ "" ∧ path.render ≠ "/" := by
  cases path with
  | nil => exact absurd rfl notRoot
  | cons first rest =>
      have firstPlain := (List.forall_mem_cons.mp plain).1
      constructor
      · intro empty
        have texts := congrArg String.toList empty
        rw [toList_render_cons] at texts
        cases texts
      · intro slash
        have texts := congrArg String.toList slash
        rw [toList_render_cons] at texts
        have nothing := (List.append_eq_nil_iff.mp (List.cons.inj texts).2).1
        exact Segment.render_ne_empty firstPlain (String.toList_inj.mp nothing)

end Path

end Blueprint
