import JavaCallGraph.Analysis
import JavaCallGraph.Proofs.SharedTypes

/-!
# Programs without places

The number of its unit and its place in it tell one declaration from another, and nothing else is
read off them: the types, the walks through the bodies and the entry points stay as they are when
the places are forgotten. So they do when it is forgotten which of the names with one simple name
came first.
-/

namespace JavaCallGraph

def SourceType.anywhere (source : SourceType) : SourceType := { source with ref := default }

def Body.anywhere (b : Body) : Body := { b with source := b.source.anywhere }

theorem SourceType.sameHead_anywhere (source : SourceType) : source.SameHead source.anywhere := rfl

/-! ### Declarations and type nodes -/

namespace Declarations

def anywhere (decls : Declarations) : Declarations := decls.map fun _ source => source.anywhere

variable (decls : Declarations)

theorem getElem?_anywhere (name : String) :
    decls.anywhere[name]? = decls[name]?.map SourceType.anywhere :=
  decls.getElem?_mapSources name

theorem typeNodes_anywhere (library : List TypeNode) (names : TypeNames) :
    Program.typeNodes library decls.anywhere names = Program.typeNodes library decls names :=
  decls.typeNodes_mapSources SourceType.sameHead_anywhere library names

end Declarations

/-! ### Bodies -/

namespace BodyTable

def anywhere (bodies : BodyTable) : BodyTable := bodies.map fun _ b => b.anywhere

variable (bodies : BodyTable)

theorem build_anywhere (x : TypeIndex) (decls : Declarations) :
    build x decls.anywhere = (build x decls).anywhere :=
  build_mapSources x SourceType.sameHead_anywhere decls

theorem byType_anywhere : bodies.anywhere.byType = bodies.byType := bodies.byType_mapSources

end BodyTable

namespace Program

/-- The program without its units, the places of its declarations and the order of its names. -/
def anywhere (p : Program) : Program :=
  { p with
    units := #[], names := p.names.unique, decls := p.decls.anywhere, bodies := p.bodies.anywhere }

variable (p : Program)

theorem sharesTypes_anywhere : p.SharesTypes p.anywhere where
  names_agree := p.names.agree_unique
  index_eq := rfl
  isSome_source? type := by
    unfold source?
    change p.decls.anywhere[type]?.isSome = _
    rw [Declarations.getElem?_anywhere, Option.isSome_map]
  typeVars_eq type := p.decls.typeVars_mapSources SourceType.sameHead_anywhere type
  byType_eq := rfl

theorem body?_anywhere (s : Signature) : p.anywhere.body? s = (p.body? s).map Body.anywhere :=
  p.bodies.getElem?_mapSources s

theorem isSome_body?_anywhere (s : Signature) :
    (p.anywhere.body? s).isSome = (p.body? s).isSome := by
  rw [body?_anywhere, Option.isSome_map]

end Program

theorem Body.summarize_anywhere (p : Program) (s : Signature) :
    summarize p.anywhere s = summarize p s := by
  refine summarize_eq_of_passOf p.sharesTypes_anywhere ?_
  rw [Program.body?_anywhere]
  cases p.body? s with
  | none => rfl
  | some b =>
    change passOf p.anywhere b.anywhere = _
    exact passOf_within p.sharesTypes_anywhere rfl b.source.sameHead_anywhere fun _ _ => rfl

/-! ### The engine -/

namespace Engine

variable (p : Program)

theorem answerBy_anywhere (summary : Signature → StateM Engine (Option BodySummary)) :
    answerBy p.anywhere summary = answerBy p summary := by
  funext q
  cases q with
  | returnSet m => rfl
  | fieldSet key => simp only [answerBy, fieldSetBy, writesBy, writers_eq p.sharesTypes_anywhere]

theorem summaryBy_anywhere (room : Nat) : summaryBy p.anywhere room = summaryBy p room := by
  induction room with
  | zero =>
    funext s
    rw [summaryBy, summaryBy]
  | succ room ih =>
    funext s
    rw [summaryBy, summaryBy]
    simp only [ih, Body.summarize_anywhere, answerBy_anywhere]

theorem callees_anywhere (s : Signature) : callees p.anywhere s = callees p s := by
  unfold callees answer summary
  rw [Body.summarize_anywhere, summaryBy_anywhere, answerBy_anywhere]

end Engine

namespace Program

variable (p : Program)

theorem bodyEdges_anywhere (bodies : List Signature) :
    p.anywhere.bodyEdges bodies = p.bodyEdges bodies := by
  unfold bodyEdges
  simp only [Engine.callees_anywhere]

theorem roots_anywhere (callbacks : Callbacks) (withMain : Bool) :
    p.anywhere.roots callbacks withMain = p.roots callbacks withMain := by
  have hroots : p.anywhere.rootsOf callbacks withMain = p.rootsOf callbacks withMain := by
    funext node
    unfold rootsOf
    simp only [isSome_body?_anywhere]
    rfl
  unfold roots
  rw [hroots]
  rfl

theorem sourceTypeCount_anywhere : p.anywhere.sourceTypeCount = p.sourceTypeCount :=
  Std.ExtTreeMap.size_map

theorem bodyCount_anywhere : p.anywhere.bodyCount = p.bodyCount := Std.ExtTreeMap.size_map

end Program

end JavaCallGraph
