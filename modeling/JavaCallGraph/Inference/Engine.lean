import JavaCallGraph.Inference.Body

/-!
# The inference engine

The engine answers what methods return, what is written to fields and which methods a body may
call. Summaries of bodies are made when they are asked for and kept. A body that is asked for while
it is being summarized has no summary, and neither has one that is nested too deep; whoever asks
then falls back on declared types.
-/

namespace JavaCallGraph

/-- What the engine keeps between questions and while it answers one. -/
structure Engine where
  summaries : SignatureMap BodySummary := ∅
  fields : FieldMap (Option ConstraintSet) := ∅
  /-- Bodies that are being summarized. -/
  inProgress : SignatureSet := ∅
  /-- Fields whose writes are being gathered. -/
  fieldsInProgress : FieldSet := ∅

namespace Engine

/-- The number of summaries that may be nested in one another. -/
def maxDepth : Nat := 32

section Answers

variable {m : Type → Type} [Monad m]

/-- The objects that a method returns, where its body pins them down. -/
def returnSetBy (summary : Signature → m (Option BodySummary)) (method : Method) :
    m (Option ConstraintSet) := do
  match ← summary method.signature with
  | some s => return if s.returns.unresolved || s.returns.isEmpty then none else some s.returns
  | none => return none

/-- What has been gathered about the writes to a field. -/
structure Writes where
  set : ConstraintSet := .empty
  written : Bool := false
  /-- Some body that may write the field could not be looked at. -/
  incomplete : Bool := false

namespace Writes

def add (w : Writes) (key : FieldKey) : Option BodySummary → Writes
  | none => { w with incomplete := true }
  | some summary =>
    match summary.writes[key]? with
    | some set => { w with set := w.set ∪ set, written := true }
    | none => w

/-- The objects that are written to the field; none if nothing writes to it. -/
def result (w : Writes) : Option ConstraintSet :=
  if w.incomplete then some { w.set with unresolved := true }
  else if w.written then some w.set
  else none

end Writes

/-- The bodies that may write to a field of a type: those of the type and of its subtypes. -/
def writers (p : Program) (declaring : String) : List Signature :=
  ((declaring :: (p.hierarchy.descendants declaring).toList).filter
    fun owner => (p.source? owner).isSome).flatMap p.typeBodies

def writesBy (p : Program) (summary : Signature → m (Option BodySummary)) (key : FieldKey) :
    m Writes :=
  (writers p key.declaring).foldlM (fun (w : Writes) s => do return w.add key (← summary s)) {}

end Answers

/-! ### What is in progress and what is kept -/

section Kept

variable (e : Engine)

def enterField (key : FieldKey) : Engine :=
  { e with fieldsInProgress := e.fieldsInProgress.insert key }

def leaveField (key : FieldKey) : Engine :=
  { e with fieldsInProgress := e.fieldsInProgress.erase key }

/-- What is incomplete is not kept. -/
def keepWrites (key : FieldKey) (w : Writes) : Engine :=
  if w.incomplete then e else { e with fields := e.fields.insert key w.result }

def enter (s : Signature) : Engine := { e with inProgress := e.inProgress.insert s }

def leave (s : Signature) : Engine := { e with inProgress := e.inProgress.erase s }

def keepSummary (s : Signature) : Option BodySummary → Engine
  | none => e
  | some summary => { e with summaries := e.summaries.insert s summary }

end Kept

/-- The objects that are written to a field. While the field is being gathered there is no
answer. -/
def fieldSetBy (p : Program) (summary : Signature → StateM Engine (Option BodySummary))
    (key : FieldKey) : StateM Engine (Option ConstraintSet) := do
  match (← get).fields[key]? with
  | some known => return known
  | none =>
    if (← get).fieldsInProgress.contains key then return none
    modify (·.enterField key)
    let writes ← writesBy p summary key
    modify fun e => (e.leaveField key).keepWrites key writes
    return writes.result

def answerBy (p : Program) (summary : Signature → StateM Engine (Option BodySummary)) :
    Question → StateM Engine (Option ConstraintSet)
  | .returnSet m => returnSetBy summary m
  | .fieldSet key => fieldSetBy p summary key

/-- The summary of a body. `room` more summaries may be nested in this one. -/
def summaryBy (p : Program) (room : Nat) (s : Signature) :
    StateM Engine (Option BodySummary) := do
  match (← get).summaries[s]? with
  | some known => return some known
  | none =>
    match room with
    | 0 => return none
    | room + 1 =>
      if (← get).inProgress.contains s then return none
      modify (·.enter s)
      let walked ← (Body.summarize p s).run (answerBy p (summaryBy p room))
      modify fun e => (e.leave s).keepSummary s walked
      return walked

/-! ### Questions -/

/-- The summary of the body of a signature; none if there is no such body. -/
def summary (p : Program) : Signature → StateM Engine (Option BodySummary) := summaryBy p maxDepth

def answer (p : Program) : Question → StateM Engine (Option ConstraintSet) :=
  answerBy p (summary p)

def returnSet (p : Program) (m : Method) : StateM Engine (Option ConstraintSet) :=
  answer p (.returnSet m)

def fieldSet (p : Program) (key : FieldKey) : StateM Engine (Option ConstraintSet) :=
  answer p (.fieldSet key)

/-- The methods that a body may call. The body is walked afresh. -/
def callees (p : Program) (s : Signature) : StateM Engine SignatureSet := do
  match ← (Body.summarize p s).run (answer p) with
  | some summary => return summary.callees
  | none => return ∅

end Engine

end JavaCallGraph
