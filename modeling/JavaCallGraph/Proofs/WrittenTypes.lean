import JavaCallGraph.Proofs.TypeGrammar
import Mathlib.Data.List.Chain

/-!
# Written forms of static types

A static type is written by the name of its innermost element, its arguments in angle brackets and
a pair of brackets for each array around the element. A keyword names a primitive type, a name in
scope a type variable, and any other name a class. Whatever white space stands between the tokens
of the written form, it is read as the type it was made from.
-/

namespace JavaCallGraph

namespace TypeText

open Text

/-! ### Tokens with blanks between them -/

/-- The tokens one after another: `gap i` stands before token `i`, and one more gap at the end. -/
def spread (gap : Nat → List Char) : List Lexeme → List Char
  | [] => gap 0
  | token :: tokens => gap 0 ++ (token.text ++ spread (fun i => gap (i + 1)) tokens)

def Breaks (token : Lexeme) : Prop := ∀ c ∈ token.text.head?, isTypeNameChar c = false

def Apart : Lexeme → Lexeme → Prop
  | .name _, next => Breaks next
  | _, _ => True

variable {tokens more : List Lexeme} {gap : Nat → List Char}

theorem mem_head?_spread (hnames : ∀ text, .name text ∈ tokens → IsTypeName text)
    (hgap : ∀ i, ∀ c ∈ gap i, isBlank c) {c : Char} (hc : c ∈ (spread gap tokens).head?) :
    isBlank c ∨ ∃ token ∈ tokens.head?, c ∈ token.text.head? := by
  cases tokens with
  | nil => exact .inl (hgap 0 c (List.mem_of_mem_head? hc))
  | cons token tokens =>
    have htext : token.text ≠ [] := by
      cases token with
      | name text => exact (hnames text List.mem_cons_self).1
      | _ => exact nofun
    rw [spread, List.head?_append, List.head?_append_of_ne_nil _ htext, Option.mem_def,
      Option.or_eq_some_iff] at hc
    rcases hc with hc | ⟨-, hc⟩
    · exact .inl (hgap 0 c (List.mem_of_mem_head? hc))
    · exact .inr ⟨token, rfl, hc⟩

/-- With any blanks around them, tokens of which none runs into the next are a text of them. -/
theorem scans_spread (htokens : tokens.IsChain Apart)
    (hnames : ∀ text, .name text ∈ tokens → IsTypeName text)
    (hgap : ∀ i, ∀ c ∈ gap i, isBlank c) : Scans tokens (spread gap tokens) := by
  induction tokens generalizing gap with
  | nil => exact ⟨gap 0, rfl, hgap 0⟩
  | cons token tokens ih =>
    obtain ⟨happart, htokens⟩ := List.isChain_cons.mp htokens
    have hnames' (text : String) (h : .name text ∈ tokens) : IsTypeName text :=
      hnames text (List.mem_cons_of_mem token h)
    obtain ⟨rest, htakes, hblank⟩ := ih htokens hnames' fun i => hgap (i + 1)
    refine ⟨rest, ⟨_, ⟨gap 0, hgap 0, rfl, ?_⟩, htakes⟩, hblank⟩
    cases token with
    | name text =>
      refine ⟨hnames text List.mem_cons_self, fun c hc => ?_⟩
      rcases mem_head?_spread hnames' (fun i => hgap (i + 1)) hc with hblank | ⟨next, hnext, hc⟩
      · exact isTypeNameChar_of_isBlank hblank
      · exact happart next hnext c hc
    | _ => trivial

theorem isChain_cons (token : Lexeme) (hfixed : token.isName = false)
    (h : tokens.IsChain Apart) : (token :: tokens).IsChain Apart := by
  refine h.cons fun next _ => ?_
  cases token with
  | name text => cases hfixed
  | _ => trivial

theorem isChain_brackets (h : more.IsChain Apart) (rank : Nat) :
    (List.replicate rank Lexeme.brackets ++ more).IsChain Apart := by
  induction rank with
  | zero => exact h
  | succ rank ih => exact isChain_cons .brackets rfl ih

theorem breaks_brackets (h : ∀ next ∈ more.head?, Breaks next) (rank : Nat) :
    ∀ next ∈ (List.replicate rank Lexeme.brackets ++ more).head?, Breaks next := by
  cases rank with
  | zero => exact h
  | succ rank =>
    rintro _ ⟨⟩ c ⟨⟩
    decide

namespace TypeExpr

mutual

/-- In an expression no name runs into the token after it. -/
theorem isChain_lexemes_append (e : TypeExpr) {more : List Lexeme} (hmore : more.IsChain Apart)
    (hbreaks : ∀ next ∈ more.head?, Breaks next) : (e.lexemes ++ more).IsChain Apart := by
  cases e with
  | wildcard => exact isChain_cons .wildcard rfl hmore
  | upper bound =>
    have hbound := isChain_lexemes_append bound hmore hbreaks
    exact isChain_cons .wildcard rfl (isChain_cons .upper rfl hbound)
  | lower bound =>
    have hbound := isChain_lexemes_append bound hmore hbreaks
    exact isChain_cons .wildcard rfl (isChain_cons .lower rfl hbound)
  | named name args rank =>
    have hbrackets := isChain_brackets hmore rank
    rw [lexemes, List.cons_append, List.append_assoc]
    cases args with
    | nil => exact hbrackets.cons (breaks_brackets hbreaks rank)
    | cons arg args =>
      have hargs := isChain_args_append arg args hbrackets
      rw [argLexemes, List.cons_append, List.append_assoc]
      refine (isChain_cons .opening rfl hargs).cons ?_
      rintro _ ⟨⟩ c ⟨⟩
      decide
termination_by sizeOf e

theorem isChain_args_append (arg : TypeExpr) (args : List TypeExpr) {more : List Lexeme}
    (hmore : more.IsChain Apart) :
    (arg.lexemes ++ (moreLexemes args ++ more)).IsChain Apart := by
  cases args with
  | nil =>
    apply isChain_lexemes_append arg (isChain_cons .closing rfl hmore)
    rintro _ ⟨⟩ c ⟨⟩
    decide
  | cons next args =>
    have hargs := isChain_args_append next args hmore
    rw [moreLexemes, List.cons_append, List.append_assoc]
    apply isChain_lexemes_append arg (isChain_cons .comma rfl hargs)
    rintro _ ⟨⟩ c ⟨⟩
    decide
termination_by sizeOf arg + sizeOf args

end

theorem isChain_lexemes (e : TypeExpr) : e.lexemes.IsChain Apart := by
  have hchain := e.isChain_lexemes_append List.isChain_nil nofun
  rwa [List.append_nil] at hchain

/-! ### Names in an expression -/

theorem name_mem_moreLexemes {text : String} {args : List TypeExpr}
    (h : .name text ∈ moreLexemes args) : ∃ arg ∈ args, .name text ∈ arg.lexemes := by
  induction args with
  | nil => simp [moreLexemes] at h
  | cons arg args ih =>
    rw [moreLexemes, List.mem_cons, List.mem_append] at h
    rcases h with h | h | h
    · cases h
    · exact ⟨arg, List.mem_cons_self, h⟩
    · obtain ⟨other, hother, h⟩ := ih h
      exact ⟨other, List.mem_cons_of_mem arg hother, h⟩

theorem name_mem_lexemes {text name : String} {args : List TypeExpr} {rank : Nat}
    (h : .name text ∈ (named name args rank).lexemes) :
    text = name ∨ ∃ arg ∈ args, .name text ∈ arg.lexemes := by
  rw [lexemes, List.mem_cons, List.mem_append] at h
  rcases h with h | h | h
  · exact .inl (Lexeme.name.inj h)
  · cases args with
    | nil => cases h
    | cons arg args =>
      rw [argLexemes, List.mem_cons, List.mem_append] at h
      rcases h with h | h | h
      · cases h
      · exact .inr ⟨arg, List.mem_cons_self, h⟩
      · obtain ⟨other, hother, h⟩ := name_mem_moreLexemes h
        exact .inr ⟨other, List.mem_cons_of_mem arg hother, h⟩
  · cases List.eq_of_mem_replicate h

theorem values_eq_map (scope : List String) (es : List TypeExpr) :
    values scope es = es.map (value scope) := by
  induction es with
  | nil => rfl
  | cons e es ih => rw [values, ih, List.map_cons]

end TypeExpr

end TypeText

/-! ### Static types -/

open TypeText

namespace Descriptor

def spelling : Descriptor → String
  | .primitive p => p.keyword
  | .reference name => name
  | .typeVar name => name
  | .array element => element.spelling

def rank : Descriptor → Nat
  | .array element => element.rank + 1
  | _ => 0

def Spelled (scope : List String) : Descriptor → Prop
  | .primitive _ => True
  | .reference name => IsTypeName name ∧ Primitive.ofKeyword? name = none ∧ name ∉ scope
  | .typeVar name => IsTypeName name ∧ Primitive.ofKeyword? name = none ∧ name ∈ scope
  | .array element => element.Spelled scope

variable {scope : List String} {desc : Descriptor}

theorem Spelled.isTypeName (h : desc.Spelled scope) : IsTypeName desc.spelling := by
  induction desc with
  | primitive p => cases p <;> exact ⟨by decide, List.all_eq_true.mp (by decide)⟩
  | reference name => exact h.1
  | typeVar name => exact h.1
  | array element ih => exact ih h

theorem Spelled.named_arrayOfRank (h : desc.Spelled scope) (args : List StaticType) :
    StaticType.arrayOfRank ⟨(named scope desc.spelling).desc, args⟩ desc.rank = ⟨desc, args⟩ := by
  induction desc with
  | primitive p =>
    have hkeyword : Primitive.ofKeyword? p.keyword = some p := by cases p <;> decide
    rw [spelling, named, hkeyword]
    rfl
  | reference name =>
    obtain ⟨-, hkeyword, hscope⟩ := h
    rw [spelling, named, hkeyword]
    simp [hscope, rank, StaticType.arrayOfRank, StaticType.reference, StaticType.ofDescriptor]
  | typeVar name =>
    obtain ⟨-, hkeyword, hscope⟩ := h
    rw [spelling, named, hkeyword]
    simp [hscope, rank, StaticType.arrayOfRank, StaticType.ofDescriptor]
  | array element ih => exact congrArg StaticType.arrayOf (ih h)

end Descriptor

namespace StaticType

/-- Every name in the type can be written, and it means what it stands for. -/
inductive Spelled (scope : List String) : StaticType → Prop
  | intro {desc : Descriptor} {args : List StaticType} (hdesc : desc.Spelled scope)
      (hargs : ∀ arg ∈ args, Spelled scope arg) : Spelled scope ⟨desc, args⟩

mutual

def written : StaticType → TypeExpr
  | ⟨desc, args⟩ => .named desc.spelling (writtenAll args) desc.rank

def writtenAll : List StaticType → List TypeExpr
  | [] => []
  | t :: ts => t.written :: writtenAll ts

end

theorem writtenAll_eq_map (ts : List StaticType) : writtenAll ts = ts.map written := by
  induction ts with
  | nil => rfl
  | cons t ts ih => rw [writtenAll, ih, List.map_cons]

variable {scope : List String} {t : StaticType}

theorem Spelled.value_written (h : t.Spelled scope) : t.written.value scope = t := by
  induction h with
  | @intro desc args hdesc _ ih =>
    have hargs : TypeExpr.values scope (writtenAll args) = args := by
      rw [TypeExpr.values_eq_map, writtenAll_eq_map, List.map_map]
      exact (List.map_congr_left ih).trans (List.map_id args)
    rw [written, TypeExpr.value, hargs]
    exact hdesc.named_arrayOfRank args

theorem Spelled.isTypeName (h : t.Spelled scope) {text : String}
    (htext : .name text ∈ t.written.lexemes) : IsTypeName text := by
  induction h with
  | @intro desc args hdesc _ ih =>
    rw [written, writtenAll_eq_map] at htext
    rcases TypeExpr.name_mem_lexemes htext with rfl | ⟨arg, harg, htext⟩
    · exact hdesc.isTypeName
    · obtain ⟨t, ht, rfl⟩ := List.mem_map.mp harg
      exact ih t ht htext

end StaticType

namespace TypeText

/-- The reader accepts the texts of the grammar and gives each the type of its expression. So it
reads a type back from its written form, whatever blanks stand in it. -/
theorem parse_exactly_grammar (scope : List String) :
    (∀ (s : List Char) (t : StaticType), parse scope s = .ok t ↔
      ∃ e : TypeExpr, Scans e.lexemes s ∧ e.value scope = t) ∧
    ∀ t : StaticType, t.Spelled scope → ∀ gap : Nat → List Char,
      (∀ i, ∀ c ∈ gap i, isBlank c) → parse scope (spread gap t.written.lexemes) = .ok t := by
  refine ⟨fun s t => parse_eq_ok_iff_scans, fun t ht gap hgap => ?_⟩
  have hscans : Scans t.written.lexemes (spread gap t.written.lexemes) :=
    scans_spread t.written.isChain_lexemes (fun _ htext => ht.isTypeName htext) hgap
  exact parse_eq_ok_iff_scans.mpr ⟨t.written, hscans, ht.value_written⟩

def mapRow : StaticType :=
  ⟨.array (.reference "java.util.Map"), [⟨.typeVar "K", []⟩, ⟨.array (.primitive .int), []⟩]⟩

theorem parse_exactly_grammar_mapRow :
    mapRow.Spelled ["K"] ∧ parse ["K"] "java.util.Map  <K  ,int  []>  []".toList = .ok mapRow := by
  have hspelled : mapRow.Spelled ["K"] := by
    refine .intro ⟨⟨by decide, List.all_eq_true.mp (by decide)⟩, by decide, by decide⟩ ?_
    intro arg harg
    simp only [List.mem_cons, List.not_mem_nil, or_false] at harg
    rcases harg with rfl | rfl
    · exact .intro ⟨⟨by decide, List.all_eq_true.mp (by decide)⟩, by decide, by decide⟩ nofun
    · exact .intro trivial nofun
  let gap (i : Nat) : List Char := if i % 2 = 0 then [] else [' ', ' ']
  have hgap (i : Nat) : ∀ c ∈ gap i, isBlank c := by
    dsimp only [gap]
    split
    · exact nofun
    · exact List.all_eq_true.mp (by decide)
  have hwritten : spread gap mapRow.written.lexemes =
      "java.util.Map  <K  ,int  []>  []".toList := by
    decide +kernel
  refine ⟨hspelled, ?_⟩
  rw [← hwritten]
  exact (parse_exactly_grammar ["K"]).2 mapRow hspelled gap hgap

end TypeText

end JavaCallGraph
