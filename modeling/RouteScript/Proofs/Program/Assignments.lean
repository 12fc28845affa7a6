import RouteScript.Proofs.Program.Printed
/-!
# Assignments of programs

The assignments in a program, at the top level and in all blocks, in the order of the printed script
and each with the script in front of it.
-/
namespace RouteScript.Program

structure Assignment where
  scope : Scope
  name : Name
  value : Expr
  /-- The script in front of the assignment. -/
  front : List Char

namespace Assignment

def code (a : Assignment) : List Char := a.scope.code a.name ++ " = ".toList ++ a.value.code

/-- The class and the identifier of the variable. -/
def target (a : Assignment) : Scope × List Char := (a.scope, a.name.text)

theorem size_code_pos (a : Assignment) : 0 < Text.size a.code := by
  have dollar : 0 < ('$').utf8Size := by decide
  simp only [code, Scope.code, List.cons_append, Text.size_cons]
  omega

end Assignment

/-- The head of a statement with a condition, up to the first line of its block. -/
def heading (word : String) (condition : Expr) : List Char :=
  word.toList ++ " (".toList ++ condition.code ++ ") \x7b\n".toList

mutual

def Stmt.assignments (indent : Nat) (front : List Char) : Stmt → List Assignment
  | .assign scope name value => [⟨scope, name, value, front ++ tabs indent⟩]
  | .branch condition consequence none =>
    Stmt.assignmentsAll (indent + 1) (front ++ tabs indent ++ heading "if" condition) consequence
  | .branch condition consequence (some alternative) =>
    let opened := front ++ tabs indent ++ heading "if" condition
    let reopened := opened ++ Stmt.codeAll (indent + 1) consequence ++ tabs indent
      ++ "\x7d else \x7b\n".toList
    Stmt.assignmentsAll (indent + 1) opened consequence
      ++ Stmt.assignmentsAll (indent + 1) reopened alternative
  | .loop condition body =>
    Stmt.assignmentsAll (indent + 1) (front ++ tabs indent ++ heading "while" condition) body
  | .switch subject cases =>
    Stmt.assignmentsCases (indent + 1) (front ++ tabs indent ++ heading "switch" subject) cases
  | .call _ _ | .routeCall _ | .drop | .exit | .back _ | .comment _ => []

def Stmt.assignmentsAll (indent : Nat) (front : List Char) : List Stmt → List Assignment
  | [] => []
  | s :: ss => s.assignments indent front ++ Stmt.assignmentsAll indent (front ++ s.code indent) ss

def Stmt.assignmentsCases (indent : Nat) (front : List Char) :
    List (Quotable × List Stmt) → List Assignment
  | [] => []
  | (label, body) :: cases =>
    let opened := front ++ tabs indent ++ "case ".toList ++ label.quoted ++ ":\n".toList
    let closed := opened ++ Stmt.codeAll (indent + 1) body ++ tabs (indent + 1)
      ++ "break;\n".toList
    Stmt.assignmentsAll (indent + 1) opened body ++ Stmt.assignmentsCases indent closed cases

end

def Item.assignments (front : List Char) : Item → List Assignment
  | .assign scope name value => [⟨scope, name, value, front⟩]
  | .route type name body =>
    Stmt.assignmentsAll 1 (front ++ type.word.toList ++ brackets name ++ " \x7b\n".toList) body
  | .parameter _ _ | .loadModule _ | .modParam _ _ _ => []

def assignmentsFrom (front : List Char) : List Item → List Assignment
  | [] => []
  | i :: items => i.assignments front ++ assignmentsFrom (front ++ i.code) items

/-- All assignments of a program, in the order of the printed script. -/
def assignments (p : Program) : List Assignment := assignmentsFrom [] p.items

/-- Assignments that stand in a piece of script behind some text, in their order. -/
structure Within (front code : List Char) (found : List Assignment) : Prop where
  inside : ∀ a ∈ found, ∃ before after,
    a.front = front ++ before ∧ code = before ++ a.code ++ after
  ordered : found.Pairwise fun a b => Text.size a.front < Text.size b.front

namespace Within

variable {front code code' : List Char} {found found' : List Assignment}

theorem nil (front code : List Char) : Within front code [] := ⟨by simp, .nil⟩

theorem append (h : Within front code found) (h' : Within (front ++ code) code' found') :
    Within front (code ++ code') (found ++ found') := by
  refine ⟨fun a ha => ?_, List.pairwise_append.2 ⟨h.ordered, h'.ordered, fun a ha b hb => ?_⟩⟩
  · rcases List.mem_append.1 ha with here | later
    · obtain ⟨before, after, starts, split⟩ := h.inside a here
      exact ⟨before, after ++ code', starts, by simp [split]⟩
    · obtain ⟨before, after, starts, split⟩ := h'.inside a later
      exact ⟨code ++ before, after, by simp [starts], by simp [split]⟩
  · obtain ⟨before, after, starts, split⟩ := h.inside a ha
    obtain ⟨before', _, starts', _⟩ := h'.inside b hb
    have long := a.size_code_pos
    simp only [starts, starts', split, Text.size_append]
    omega

/-- What stands in front of a piece of script may be counted to it. -/
theorem behind {text : List Char} (h : Within (front ++ text) code found) :
    Within front (text ++ code) found := (nil front text).append h

/-- More script may follow. -/
theorem before (h : Within front code found) (text : List Char) :
    Within front (code ++ text) found := by
  have whole := h.append (nil (front ++ code) text)
  rwa [List.append_nil] at whole

theorem assignment (scope : Scope) (name : Name) (value : Expr) (front : List Char) :
    Within front (scope.code name ++ " = ".toList ++ value.code) [⟨scope, name, value, front⟩] :=
  ⟨by simp [Assignment.code], List.pairwise_singleton _ _⟩

end Within

mutual

theorem Stmt.within (indent : Nat) : ∀ (s : Stmt) (front : List Char),
    Within front (s.code indent) (s.assignments indent front)
  | .assign scope name value, front => by
    have here := Within.assignment scope name value (front ++ tabs indent)
    simpa [Stmt.code, Stmt.assignments] using here.behind.before ";\n".toList
  | .branch condition consequence none, front => by
    have inner := Stmt.within_all (indent + 1) consequence
      (front ++ (tabs indent ++ heading "if" condition))
    simpa [Stmt.code, Stmt.assignments, heading, braces] using
      inner.behind.before (tabs indent ++ "\x7d\n".toList)
  | .branch condition consequence (some alternative), front => by
    have inner := Stmt.within_all (indent + 1) consequence
      (front ++ (tabs indent ++ heading "if" condition))
    have inner' := Stmt.within_all (indent + 1) alternative
      (front ++ (tabs indent ++ heading "if" condition ++ Stmt.codeAll (indent + 1) consequence)
        ++ (tabs indent ++ "\x7d else \x7b\n".toList))
    have both := inner.behind.append (inner'.behind.before (tabs indent ++ "\x7d\n".toList))
    simpa [Stmt.code, Stmt.assignments, heading, braces] using both
  | .loop condition body, front => by
    have inner := Stmt.within_all (indent + 1) body
      (front ++ (tabs indent ++ heading "while" condition))
    simpa [Stmt.code, Stmt.assignments, heading, braces] using
      inner.behind.before (tabs indent ++ "\x7d\n".toList)
  | .switch subject cases, front => by
    have inner := Stmt.within_cases (indent + 1) cases
      (front ++ (tabs indent ++ heading "switch" subject))
    simpa [Stmt.code, Stmt.assignments, heading, braces] using
      inner.behind.before (tabs indent ++ "\x7d\n".toList)
  | .call _ _, front | .routeCall _, front | .drop, front | .exit, front | .back _, front
  | .comment _, front => .nil front _

theorem Stmt.within_all (indent : Nat) : ∀ (ss : List Stmt) (front : List Char),
    Within front (Stmt.codeAll indent ss) (Stmt.assignmentsAll indent front ss)
  | [], front => .nil front _
  | s :: ss, front => (s.within indent front).append (Stmt.within_all indent ss _)

theorem Stmt.within_cases (indent : Nat) :
    ∀ (cases : List (Quotable × List Stmt)) (front : List Char),
      Within front (Stmt.codeCases indent cases) (Stmt.assignmentsCases indent front cases)
  | [], front => .nil front _
  | (label, body) :: cases, front => by
    have inner := Stmt.within_all (indent + 1) body
      (front ++ (tabs indent ++ "case ".toList ++ label.quoted ++ ":\n".toList))
    have others := Stmt.within_cases indent cases (front ++ (tabs indent ++ "case ".toList
      ++ label.quoted ++ ":\n".toList ++ Stmt.codeAll (indent + 1) body)
      ++ (tabs (indent + 1) ++ "break;\n".toList))
    simpa [Stmt.codeCases, Stmt.assignmentsCases] using inner.behind.append others.behind

end

theorem Item.within (i : Item) (front : List Char) :
    Within front i.code (i.assignments front) := by
  unfold Item.code Item.assignments
  cases i with
  | assign scope name value => exact (Within.assignment scope name value front).before _
  | route type name body =>
    have inner := Stmt.within_all 1 body
      (front ++ (type.word.toList ++ brackets name ++ " \x7b\n".toList))
    simpa [braces, tabs] using inner.behind.before "\x7d\n".toList
  | _ => exact .nil front _

theorem within_from (items : List Item) (front : List Char) :
    Within front (items.flatMap Item.code) (assignmentsFrom front items) := by
  induction items generalizing front with
  | nil => exact .nil front _
  | cons i items ih => exact (i.within front).append (ih _)

/-- The assignments of a program stand in its script in their order. -/
theorem within_code (p : Program) : Within [] p.code p.assignments := within_from p.items []

end RouteScript.Program
