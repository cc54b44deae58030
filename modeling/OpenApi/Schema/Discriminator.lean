import OpenApi.Schema.Combinator

/-!
# Discriminators

A discriminator names a property of the instance whose text selects the schema
the instance is meant for. The text is looked up in the mapping of the
discriminator first. If the result is a plain name, it is the name of a
component schema; otherwise it is a reference.

Beside `anyOf` or `oneOf` the discriminator only checks that something is
selected. Under `oneOf` the selected branch wins if it accepts; otherwise the
first accepting branch does, and several of them are no violation.

Without a combinator beside it the selected schema is evaluated. It usually
leads back, by an `allOf`, to the schema with the discriminator, whose keywords
are being evaluated already; so the selected schema is evaluated with that one
excluded from its `allOf`, and a schema that selects itself is not evaluated
again.

## Main definitions

* `Node.selected`: The address that a discriminator selects.
* `Node.applyDiscriminator`: The keyword.
* `Node.applySelectedOneOf`: The choice among branches under a discriminator.
-/

namespace OpenApi

/-- Whether a text is a plain name: letters, digits, underscores, hyphens and
    points, of which the first is a letter or an underscore. -/
def isPlainName (text : String) : Bool :=
  match text.toList with
  | [] => false
  | c :: rest =>
    (c.isAlpha || c == '_')
      && rest.all fun c => c.isAlphanum || c == '_' || c == '-' || c == '.'

/-- The reference that a selecting text stands for. -/
def referenceOf (text : String) : String :=
  if isPlainName text then "\x23/components/schemas/" ++ text else text

namespace Node

/-- The address that errors in the discriminator of a schema report. -/
def discriminatorScope (n : Node) : String :=
  match n.child? ["discriminator"] with
  | some d => d.scope
  | none => n.scope

/-- The text that the mapping of a discriminator gives to a text of the
    instance: the text itself if it is not mapped. -/
def mapped (n : Node) (text : String) : Except Failure String :=
  let entry? := do
    let discriminator ← n.get? "discriminator"
    let mapping ← discriminator.get? "mapping"
    mapping.get? text
  match entry? with
  | none => .ok text
  | some (.string target) => .ok target
  | some _ => .error (.ofSchema n.discriminatorScope .mapping (some text))

/-- The address of the schema that the discriminator of a node selects for an
    instance. -/
def selected (n : Node) (path : String) (x : Json) : Except Failure Uri :=
  match (n.get? "discriminator").bind fun d => d.get? "propertyName" with
  | some (.string property) =>
    match x.get? property with
    | some (.string text) => do
      let target ← n.mapped text
      let reference := referenceOf target
      match n.base.resolve? reference with
      | some uri => .ok uri
      | none => .error (.ofSchema n.discriminatorScope .subschema (some reference))
    | _ => .error (.ofCauses path n.scope .discriminator
        [⟨Pointer.push path property, n.scope, .required, []⟩])
  | _ => .error (.ofSchema n.scope .discriminator none)

/-- Applies `discriminator`. -/
def applyDiscriminator (n : Node) (r : Registry) (evaluate : Evaluation) (path : String)
    (x : Json) : Except Failure Json := do
  let uri ← n.selected path x
  if n.has "anyOf" || n.has "oneOf" then .ok x
  else
    match r.node? uri with
    | none => .error (.ofSchema n.discriminatorScope .subschema (some uri.text))
    | some schema =>
      let target ← r.follow schema
      if target.scope = n.scope then .ok x
      else
        match ← verdict (evaluate (schema.excluding n.scope) path x) with
        | .ok value => .ok value
        | .error v => .error (.ofCauses path n.scope .discriminator [v])

/-- What is known after some branches under a discriminator. -/
structure Choice where
  /-- The result of the first branch that accepted. -/
  first? : Option Json
  /-- The violations of the branches that did not. -/
  causes : List Violation

/-- The result of the branch that leads to `scope`, if that accepts, and
    otherwise what is known after all branches. -/
def chooseBranch (r : Registry) (evaluate : Evaluation) (scope path : String) (x : Json) :
    List Node → Choice → Except Failure (Except Choice Json)
  | [], known => .ok (.error known)
  | branch :: rest, known => do
    let target ← r.follow branch
    match ← verdict (evaluate branch path x) with
    | .ok value =>
      if target.scope = scope then .ok (.ok value)
      else
        let known := { known with first? := some (known.first?.getD value) }
        chooseBranch r evaluate scope path x rest known
    | .error v =>
      chooseBranch r evaluate scope path x rest { known with causes := known.causes ++ [v] }

/-- Applies `oneOf` under a discriminator. -/
def applySelectedOneOf (n : Node) (r : Registry) (evaluate : Evaluation) (path : String)
    (x : Json) : Except Failure Json := do
  let uri ← n.selected path x
  match ← chooseBranch r evaluate uri.text path x (n.branches "oneOf") ⟨none, []⟩ with
  | .ok value => .ok value
  | .error known =>
    match known.first? with
    | some value => .ok value
    | none => .error (.ofCauses path n.scope .oneOf known.causes)

end Node

end OpenApi
