import JavaCallGraph.StaticType

/-!
# Type variables and substitution

The descriptor of a type has at most one variable, below any number of arrays, and the arguments
stand beside these. So a type is an array of a variable, of some rank, or all its variables are in
its arguments. If the variable is bound, descriptor and arguments of the array both come from the
type in its place. Substituting some bindings and then others is substituting their composition, and
bindings of variables that do not occur change nothing.
-/

namespace JavaCallGraph

def Descriptor.vars : Descriptor → List String
  | .typeVar name => [name]
  | .array element => element.vars
  | _ => []

namespace StaticType

theorem induction_args {P : StaticType → Prop}
    (step : ∀ desc args, (∀ a ∈ args, P a) → P ⟨desc, args⟩) (t : StaticType) : P t := by
  refine @StaticType.rec P (fun args => ∀ a ∈ args, P a) step ?_ ?_ t
  · simp
  · intro t ts ht hts a ha
    rcases List.mem_cons.mp ha with rfl | ha
    · exact ht
    · exact hts a ha

mutual

def vars : StaticType → List String
  | ⟨desc, args⟩ => desc.vars ++ varsList args

def varsList : List StaticType → List String
  | [] => []
  | t :: ts => vars t ++ varsList ts

end

mutual

def decEq : (t u : StaticType) → Decidable (t = u)
  | ⟨d, as⟩, ⟨e, bs⟩ =>
    match decEqList as bs with
    | isTrue has => decidable_of_iff (d = e) (by rw [has, mk.injEq, and_iff_left rfl])
    | isFalse has => isFalse fun h => has (congrArg args h)

def decEqList : (ts us : List StaticType) → Decidable (ts = us)
  | [], [] => isTrue rfl
  | [], _ :: _ => isFalse nofun
  | _ :: _, [] => isFalse nofun
  | t :: ts, u :: us =>
    match decEq t u, decEqList ts us with
    | isTrue ht, isTrue hts => isTrue (by rw [ht, hts])
    | isFalse ht, _ => isFalse fun h => ht (List.cons.inj h).1
    | _, isFalse hts => isFalse fun h => hts (List.cons.inj h).2

end

instance : DecidableEq StaticType := decEq

theorem mem_varsList {v : String} {ts : List StaticType} :
    v ∈ varsList ts ↔ ∃ t ∈ ts, v ∈ t.vars := by
  induction ts with
  | nil => simp [varsList]
  | cons t ts ih => simp [varsList, ih]

@[simp]
theorem mem_vars_mk {v : String} {desc : Descriptor} {args : List StaticType} :
    v ∈ vars ⟨desc, args⟩ ↔ v ∈ desc.vars ∨ ∃ a ∈ args, v ∈ a.vars := by
  rw [vars, List.mem_append, mem_varsList]

theorem vars_arrayOf (t : StaticType) : t.arrayOf.vars = t.vars := by
  cases t
  rw [arrayOf, vars, vars]
  rfl

/-! ### Arrays of variables -/

theorem vars_eq_nil_or_arrayOfRank (desc : Descriptor) (args : List StaticType) :
    desc.vars = [] ∨ ∃ v n, (⟨desc, args⟩ : StaticType) = arrayOfRank ⟨.typeVar v, args⟩ n := by
  induction desc with
  | typeVar v => exact .inr ⟨v, 0, rfl⟩
  | array e ih =>
    obtain h | ⟨v, n, h⟩ := ih
    · exact .inl h
    · exact .inr ⟨v, n + 1, congrArg arrayOf h⟩
  | _ => exact .inl rfl

/-- A type is an array of a variable, or its descriptor has none. Nothing is said of the arguments
in the first case: they go with the variable if it is bound, and else stay as they are. -/
theorem induction_head {P : StaticType → Prop}
    (var : ∀ v args n, P (arrayOfRank ⟨.typeVar v, args⟩ n))
    (named : ∀ desc args, desc.vars = [] → (∀ a ∈ args, P a) → P ⟨desc, args⟩)
    (t : StaticType) : P t := by
  induction t using induction_args with
  | step desc args ih =>
    obtain h | ⟨v, n, h⟩ := vars_eq_nil_or_arrayOfRank desc args
    · exact named desc args h ih
    · rw [h]
      exact var v args n

theorem vars_arrayOfRank (t : StaticType) (n : Nat) : (t.arrayOfRank n).vars = t.vars := by
  induction n with
  | zero => rfl
  | succ n ih => rw [arrayOfRank, vars_arrayOf, ih]

theorem mem_vars_arrayOfRank_typeVar (v : String) (args : List StaticType) (n : Nat) :
    v ∈ (arrayOfRank ⟨.typeVar v, args⟩ n).vars := by
  rw [vars_arrayOfRank, mem_vars_mk]
  exact .inl (List.mem_singleton.mpr rfl)

/-! ### Substitution -/

section Substitution

variable (b : Bindings)

theorem substitute_mk (desc : Descriptor) (args : List StaticType) :
    substitute b ⟨desc, args⟩ = replace b args (args.map (substitute b)) desc := by
  rw [substitute, substituteList_eq_map]

theorem substitute_typeVar (v : String) (args : List StaticType) :
    substitute b ⟨.typeVar v, args⟩ = b[v]?.getD ⟨.typeVar v, args⟩ := by
  rw [substitute_mk]
  rfl

theorem substitute_of_named {desc : Descriptor} (h : desc.vars = []) (args : List StaticType) :
    substitute b ⟨desc, args⟩ = ⟨desc, args.map (substitute b)⟩ := by
  rw [substitute_mk]
  induction desc with
  | array e ih => exact congrArg arrayOf (ih h)
  | typeVar v => cases h
  | _ => rfl

theorem substitute_arrayOf (t : StaticType) :
    t.arrayOf.substitute b = (t.substitute b).arrayOf := by
  cases t
  rw [arrayOf, substitute_mk, substitute_mk]
  rfl

theorem substitute_arrayOfRank (t : StaticType) (n : Nat) :
    (t.arrayOfRank n).substitute b = (t.substitute b).arrayOfRank n := by
  induction n with
  | zero => rfl
  | succ n ih => rw [arrayOfRank, arrayOfRank, substitute_arrayOf, ih]

/-- Bindings of other variables change nothing. -/
theorem substitute_of_unbound {t : StaticType} (h : ∀ v ∈ t.vars, v ∉ b) : t.substitute b = t := by
  induction t using induction_head with
  | var v args n =>
    have hv : b[v]? = none :=
      Std.ExtTreeMap.getElem?_eq_none (h v (mem_vars_arrayOfRank_typeVar v args n))
    rw [substitute_arrayOfRank, substitute_typeVar, hv, Option.getD_none]
  | named desc args hdesc ih =>
    have hargs : args.map (substitute b) = args.map id := List.map_congr_left fun a ha =>
      ih a ha fun v hv => h v (mem_vars_mk.mpr (.inr ⟨a, ha, hv⟩))
    rw [substitute_of_named b hdesc, hargs, List.map_id]

end Substitution

end StaticType

namespace Bindings

/-- First `b`, then `b'`: the types that `b` gives have `b'` substituted, and all other variables
have the types that `b'` gives. -/
def andThen (b b' : Bindings) : Bindings := b' ∪ b.map fun _ u => u.substitute b'

theorem getElem?_andThen (b b' : Bindings) (v : String) :
    (b.andThen b')[v]? = (b[v]?.map (StaticType.substitute b')).or b'[v]? := by
  rw [andThen, Std.ExtTreeMap.getElem?_union, Std.ExtTreeMap.getElem?_map]

end Bindings

namespace StaticType

theorem substitute_andThen (b b' : Bindings) (t : StaticType) :
    t.substitute (b.andThen b') = (t.substitute b).substitute b' := by
  induction t using induction_head with
  | var v args n =>
    simp only [substitute_arrayOfRank]
    apply congrArg (arrayOfRank · n)
    rw [substitute_typeVar, substitute_typeVar, Bindings.getElem?_andThen]
    cases b[v]? with
    | some u => rfl
    | none => exact (substitute_typeVar b' v args).symm
  | named desc args hdesc ih =>
    rw [substitute_of_named _ hdesc, substitute_of_named _ hdesc, substitute_of_named _ hdesc,
      List.map_map]
    exact congrArg (mk desc) (List.map_congr_left ih)

/-- The type at the end of a path of places in argument lists. The arguments of a variable, which
substitution does not look into, are not on any path. -/
def argAt? : StaticType → List Nat → Option StaticType
  | t, [] => some t
  | t, i :: path => if t.desc.vars = [] then t.args[i]?.bind (argAt? · path) else none

/-- Substitution reaches the arguments at any depth and moves none of them. -/
theorem argAt?_substitute (b : Bindings) {t s : StaticType} {path : List Nat}
    (h : t.argAt? path = some s) : (t.substitute b).argAt? path = some (s.substitute b) := by
  induction path generalizing t with
  | nil =>
    cases h
    rfl
  | cons i path ih =>
    obtain ⟨desc, args⟩ := t
    simp only [argAt?, Option.ite_none_right_eq_some, Option.bind_eq_some_iff] at h
    obtain ⟨hdesc, a, ha, hpath⟩ := h
    rw [substitute_of_named b hdesc, argAt?, if_pos hdesc, List.getElem?_map, ha]
    exact ih hpath

/-- Substituting `b` and then `b'` is substituting their composition. A type without the variables
that are bound stays as it is; a bound variable at any depth, also one in arrays, gives way to its
type. -/
theorem substitute_composes (b b' : Bindings) :
    (∀ (v : String) (u : StaticType), b[v]? = some u →
      (b.andThen b')[v]? = some (u.substitute b')) ∧
    (∀ v : String, v ∉ b → (b.andThen b')[v]? = b'[v]?) ∧
    (∀ t : StaticType, (t.substitute b).substitute b' = t.substitute (b.andThen b')) ∧
    (∀ t : StaticType, (∀ v ∈ t.vars, v ∉ b) → t.substitute b = t) ∧
    ∀ (t : StaticType) (path : List Nat) (v : String) (args : List StaticType) (n : Nat)
      (u : StaticType), t.argAt? path = some (arrayOfRank ⟨.typeVar v, args⟩ n) →
        b[v]? = some u → (t.substitute b).argAt? path = some (u.arrayOfRank n) := by
  refine ⟨fun v u hu => ?_, fun v hv => ?_, fun t => (substitute_andThen b b' t).symm,
    fun t => substitute_of_unbound b, fun t path v args n u hpath hu => ?_⟩
  · rw [Bindings.getElem?_andThen, hu]
    rfl
  · rw [Bindings.getElem?_andThen, Std.ExtTreeMap.getElem?_eq_none hv]
    rfl
  · rw [argAt?_substitute b hpath, substitute_arrayOfRank, substitute_typeVar, hu,
      Option.getD_some]

section Tables

/-- `Map<K[], Map<V, E[][]>>`. -/
def table : StaticType :=
  ⟨.reference "Map", [⟨.array (.typeVar "K"), []⟩,
    ⟨.reference "Map", [⟨.typeVar "V", []⟩, ⟨.array (.array (.typeVar "E")), []⟩]⟩]⟩

/-- `K` is `List<V>[]`, and `E` is `K`. -/
def columns : Bindings :=
  {("K", ⟨.array (.reference "List"), [⟨.typeVar "V", []⟩]⟩), ("E", ⟨.typeVar "K", []⟩)}

/-- `K` is `Integer`, and `V` is `Set<T>[]`. -/
def cells : Bindings :=
  {("K", .reference "Integer"), ("V", ⟨.array (.reference "Set"), [⟨.typeVar "T", []⟩]⟩)}

/-- The `K` of the table is gone before `K` is bound to `Integer`: only the one that took the place
of `E` becomes that. -/
theorem substitute_composes_table :
    (columns.andThen cells)["E"]? = some (.reference "Integer") ∧
    (columns.andThen cells)["V"]? = cells["V"]? ∧
    (table.substitute columns).substitute cells =
      ⟨.reference "Map", [⟨.array (.array (.reference "List")),
          [⟨.array (.reference "Set"), [⟨.typeVar "T", []⟩]⟩]⟩,
        ⟨.reference "Map", [⟨.array (.reference "Set"), [⟨.typeVar "T", []⟩]⟩,
          ⟨.array (.array (.reference "Integer")), []⟩]⟩]⟩ ∧
    ((table.substitute columns).substitute cells).substitute columns =
      (table.substitute columns).substitute cells ∧
    (table.substitute columns).argAt? [1, 1] = some (arrayOfRank ⟨.typeVar "K", []⟩ 2) := by
  obtain ⟨hbound, hother, hcomposed, hkept, hreplaced⟩ := substitute_composes columns cells
  have hE : columns["E"]? = some ⟨.typeVar "K", []⟩ := by decide +kernel
  refine ⟨(hbound "E" _ hE).trans ?_, hother "V" ?_, (hcomposed table).trans ?_, hkept _ ?_,
    hreplaced table [1, 1] "E" [] 2 _ rfl hE⟩
  · decide +kernel
  · decide +kernel
  · decide +kernel
  · decide +kernel

end Tables

end StaticType

end JavaCallGraph
