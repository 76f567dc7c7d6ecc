import JavaCallGraph.Program

/-!
# Small programs

One package of plain classes, for programs that show what an analysis does on a particular input.
-/

namespace JavaCallGraph

def MethodDecl.plain (name : String) (params : List (String × String)) (ret : String)
    (body : List Stmt) : MethodDecl where
  name
  kind := .method
  modifiers := {}
  typeParams := []
  params := params.map fun (type, param) => ⟨param, .named type, false⟩
  ret := some (.named ret)
  body := some body
  line := 1

def MethodDecl.withoutBody (m : MethodDecl) : MethodDecl :=
  { m with modifiers := { m.modifiers with isAbstract := true }, body := none }

def MethodDecl.asConstructor (m : MethodDecl) : MethodDecl :=
  { m with kind := .constructor, ret := none }

def TypeDecl.plain (name : String) (superclass : Option String) (methods : List MethodDecl) :
    TypeDecl where
  name := "p." ++ name
  simpleName := name
  kind := .plain
  modifiers := {}
  typeParams := []
  superclass := superclass.map .named
  interfaces := []
  methods
  enclosing := none
  line := 1

def CompilationUnit.plain (types : List TypeDecl) : CompilationUnit where
  path := "p.java"
  package := some "p"
  imports := []
  types
  hasErrors := false

theorem exists_ok_of_any {α : Type} (r : Result α) (check : α → Bool)
    (h : r.toOption.any check) : ∃ a, r = .ok a ∧ check a := by
  cases r with
  | error e => simp [Except.toOption] at h
  | ok a => exact ⟨a, rfl, by simpa [Except.toOption] using h⟩

end JavaCallGraph
