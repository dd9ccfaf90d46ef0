import Blueprint.Proofs.Tree.Nesting
import Blueprint.Symbol

/-!
# Walking an outline

`Symbol.walk` goes through the symbols with a stack of its own. It visits every symbol before those
below it and these in order (`Symbol.walk_eq_preorder`), so what holds throughout a symbol holds of
all that the walk visits.
-/

set_option autoImplicit false

namespace Blueprint.Symbol

@[simp] theorem entry_node (entry : SymbolEntry) (children : List Symbol) :
    (node entry children).entry = entry := rfl

@[simp] theorem children_node (entry : SymbolEntry) (children : List Symbol) :
    (node entry children).children = children := rfl

mutual
/-- A symbol followed by those below it, in order. -/
def preorder : Symbol → List Symbol
  | node entry children => node entry children :: preorderAll children

/-- Sibling symbols, each followed by those below it. -/
def preorderAll : List Symbol → List Symbol
  | [] => []
  | symbol :: rest => symbol.preorder ++ preorderAll rest
end

theorem preorderAll_append (left right : List Symbol) :
    preorderAll (left ++ right) = preorderAll left ++ preorderAll right := by
  induction left with
  | nil => simp [preorderAll]
  | cons symbol rest ih => simp [preorderAll, ih]

theorem walkFrom_eq_preorderAll (stack : List Symbol) : walkFrom stack = preorderAll stack := by
  fun_induction walkFrom stack with
  | case1 => rw [preorderAll]
  | case2 entry children stack ih =>
      rw [ih, preorderAll_append, preorderAll, preorder, List.cons_append]

/-- **The walk visits each symbol once, before those below it.** -/
theorem walk_eq_preorder (symbol : Symbol) : symbol.walk = symbol.preorder := by
  rw [walk, walkFrom_eq_preorderAll, preorderAll, preorderAll, List.append_nil]

theorem preorderAll_eq_flatMap (symbols : List Symbol) :
    preorderAll symbols = symbols.flatMap preorder := by
  induction symbols with
  | nil => rw [preorderAll, List.flatMap_nil]
  | cons symbol rest ih => rw [preorderAll, ih, List.flatMap_cons]

theorem holds_of_mem_walk {holds : Symbol → Prop} {symbol : Symbol}
    (throughout : Throughout Symbol.children holds symbol) :
    ∀ visited ∈ symbol.walk, holds visited := by
  rw [walk_eq_preorder]
  induction throughout with
  | @intro symbol here inner ih =>
      obtain ⟨entry, children⟩ := symbol
      rw [preorder, preorderAll_eq_flatMap]
      refine List.forall_mem_cons.mpr ⟨here, fun visited member => ?_⟩
      obtain ⟨child, below, found⟩ := List.mem_flatMap.mp member
      exact ih child below visited found

end Blueprint.Symbol
