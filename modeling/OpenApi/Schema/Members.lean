import OpenApi.Schema.Verdict

/-!
# Members of Arrays and Objects

The keywords that apply subschemas to the items of an array or the members of
an object. Each rejects its instance with one cause for every item or member
that is rejected.

A list under `items` gives one schema to each place, and `additionalItems`
takes over behind the end of that list. A single schema under `items` covers
all places, and `additionalItems` says nothing. Likewise `properties` covers
the members it declares and `additionalProperties` all the others. `false` as
an additional schema rejects as itself and not as an empty choice.

A declared member that is absent from the instance and whose schema has a
default is added with that default.

The members that were there before keep their order, and added ones come after
them. Inside the evaluation of `properties` a member is taken out and put back,
which moves others around, so the order is restored at the end; the order in
which added members follow is what that leaves.

## Main definitions

* `Node.applyItems`, `Node.applyAdditionalItems`: Keywords on arrays.
* `Node.applyProperties`, `Node.applyAdditionalProperties`: Keywords on objects.
* `Ordered.restore`: Puts entries back into an earlier order.
-/

namespace OpenApi

/-- The entries with the given keys first, in the order of the keys, and then
    those that are left. -/
def Ordered.restore {α : Type} (entries : Ordered α) (keys : List String) : Ordered α :=
  let (front, left) := keys.foldl
    (fun (front, left) key =>
      match Ordered.get? left key with
      | some value => (Ordered.insert front key value, Ordered.erase left key)
      | none => (front, left))
    (([], entries) : Ordered α × Ordered α)
  left.foldl (fun front (key, value) => Ordered.insert front key value) front

namespace Node

/-- The schema for the item at a place. -/
def itemSchema? (n : Node) (i : Nat) : Option Node :=
  match n.get? "items" with
  | some (.array _) => n.child? ["items", toString i]
  | _ => n.child? ["items"]

/-- Evaluates the schema for a member, if there is one, at the path of that
    member. -/
def judge (evaluate : Evaluation) (schema? : Option Node) (path segment : String) (x : Json) :
    Except Failure (Verdict Json) :=
  match schema? with
  | none => .ok (.ok x)
  | some schema => verdict (evaluate schema (Pointer.push path segment) x)

/-- Applies `items`. -/
def applyItems (n : Node) (evaluate : Evaluation) (path : String) (x : Json) :
    Except Failure Json :=
  match x with
  | .array items => do
    let verdicts ← items.zipIdx.mapM fun (item, i) =>
      judge evaluate (n.itemSchema? i) path (toString i) item
    let items ← n.gather path .items verdicts
    .ok (.array items)
  | _ => .ok x

/-- Whether the value under a key is `false`. -/
def isFalse (n : Node) (key : String) : Bool := (n.get? key).any Json.isFalse

/-- Applies an additional schema to a member. -/
def judgeAdditional (n : Node) (evaluate : Evaluation) (key : String) (kind : ViolationKind)
    (path segment : String) (x : Json) : Except Failure (Verdict Json) :=
  if n.isFalse key then .ok (.error ⟨Pointer.push path segment, n.scope, kind, []⟩)
  else judge evaluate (n.child? [key]) path segment x

/-- Applies `additionalItems`. -/
def applyAdditionalItems (n : Node) (evaluate : Evaluation) (path : String) (x : Json) :
    Except Failure Json :=
  match n.get? "items", x with
  | some (.array tuple), .array items => do
    let verdicts ← items.zipIdx.mapM fun (item, i) =>
      if i < tuple.length then .ok (.ok item)
      else n.judgeAdditional evaluate "additionalItems" .additionalItems path (toString i) item
    let items ← n.gather path .additionalItems verdicts
    .ok (.array items)
  | _, _ => .ok x

/-- The default of the schema at a node, references being followed. -/
def default? (r : Registry) (n : Node) : Except Failure (Option Json) := do
  let target ← r.follow n
  .ok (target.get? "default")

/-- What the evaluation of `properties` has done so far. -/
structure Progress where
  /-- The members of the instance as they are now. -/
  members : Ordered Json
  /-- The violations of members, in the order of their declaration. -/
  causes : List Violation

/-- Applies the schema declared for one member. A member that is present is
    taken out and put back, and one that is absent is added if it has a
    default. -/
def applyProperty (n : Node) (r : Registry) (evaluate : Evaluation) (path : String)
    (p : Progress) (name : String) : Except Failure Progress :=
  match n.child? ["properties", name] with
  | none => .ok p
  | some schema =>
    match Ordered.get? p.members name with
    | some value => do
      let left := Ordered.erase p.members name
      match ← judge evaluate (some schema) path name value with
      | .ok value => .ok { p with members := Ordered.insert left name value }
      | .error v =>
        .ok { members := Ordered.insert left name value, causes := p.causes ++ [v] }
    | none => do
      match ← schema.default? r with
      | some value => .ok { p with members := Ordered.insert p.members name value }
      | none => .ok p

/-- Applies `properties`. -/
def applyProperties (n : Node) (r : Registry) (evaluate : Evaluation) (path : String) (x : Json) :
    Except Failure Json :=
  match x, n.get? "properties" with
  | .object members, some (.object declared) => do
    let p ← (Ordered.keys declared).foldlM (n.applyProperty r evaluate path) ⟨members, []⟩
    match p.causes with
    | [] => .ok (.object (Ordered.restore p.members (Ordered.keys members)))
    | causes => .error (.ofCauses path n.scope .properties causes)
  | _, _ => .ok x

/-- Whether `properties` declares a name. -/
def declares (n : Node) (name : String) : Bool := (n.get? "properties").any fun d => d.has name

/-- Applies `additionalProperties`. -/
def applyAdditionalProperties (n : Node) (evaluate : Evaluation) (path : String) (x : Json) :
    Except Failure Json :=
  match x with
  | .object members => do
    let verdicts ← members.mapM fun (name, value) => do
      let outcome ←
        if n.declares name then .ok (.ok value)
        else n.judgeAdditional evaluate "additionalProperties" .additionalProperties path name value
      .ok (outcome.map fun value => (name, value))
    let members ← n.gather path .additionalProperties verdicts
    .ok (.object members)
  | _ => .ok x

end Node

end OpenApi
