import Peg.Matching
import Peg.Names

/-
  Forward rules: rules that are used before they are defined, as recursive grammars need. A
  registry numbers them in the order they were declared and uses no number twice, so a reference
  stays bound to the rule it was made for. A definition is given once; a dropped rule is gone.
-/

namespace Peg

/-- What the references made so far stand for. -/
structure Registry (U L : Type) where
  entries : Array (Reference U L)

namespace Registry

variable {U L : Type}

def empty : Registry U L := ⟨#[]⟩

/-- A registry of rules that are defined from the start. -/
def ofRules (rules : List (Rule U L)) : Registry U L := ⟨(rules.map .defined).toArray⟩

/-- The number of the next rule to be declared. -/
def next (registry : Registry U L) : Nat := registry.entries.size

def lookup (registry : Registry U L) (i : Nat) : Reference U L :=
  registry.entries[i]?.getD .dropped

/-- Declare a rule without a definition. -/
def declare (registry : Registry U L) : Registry U L := ⟨registry.entries.push .undefined⟩

/-- Define a declared rule; none if it is not there or already has a definition. -/
def define? (registry : Registry U L) (i : Nat) (rule : Rule U L) : Option (Registry U L) :=
  match registry.lookup i with
  | .undefined => some ⟨registry.entries.setIfInBounds i (.defined rule)⟩
  | _ => none

def drop (registry : Registry U L) (i : Nat) : Registry U L :=
  ⟨registry.entries.setIfInBounds i .dropped⟩

def isDefined (registry : Registry U L) (i : Nat) : Bool :=
  match registry.lookup i with
  | .defined _ => true
  | _ => false

end Registry

/-- Forward rules under names: their owners, the handles taken from them, and the rules that a
second definition gave back. -/
structure Workspace (U L : Type) where
  registry : Registry U L
  owners : Names Nat
  handles : Names Nat
  kept : Names (Rule U L)

namespace Workspace

variable {U L : Type}

/-- No names yet, over rules that are defined from the start. -/
def ofRules (rules : List (Rule U L)) : Workspace U L := ⟨.ofRules rules, [], [], []⟩

def owner? (space : Workspace U L) (name : String) : Option Nat := space.owners.lookup name

/-- What a name in a rule refers to: a forward rule, or else a handle. -/
def resolve? (space : Workspace U L) (name : String) : Option Nat :=
  (space.owner? name).or (space.handles.lookup name)

/-- Whether there is a forward rule of that name; it is dropped. -/
def drop (space : Workspace U L) (name : String) : Bool × Workspace U L :=
  match space.owner? name with
  | some i =>
    (true, { space with registry := space.registry.drop i, owners := space.owners.erase name })
  | none => (false, space)

/-- A new forward rule; one that has the name already is dropped. -/
def declare (space : Workspace U L) (name : String) : Workspace U L :=
  let space := (space.drop name).2
  { space with
    registry := space.registry.declare
    owners := space.owners.put name space.registry.next }

/-- Define the forward rule of that name. Where it has a definition already the rule is given back,
and kept under a name if one is given. None if there is no such forward rule. -/
def define? (space : Workspace U L) (name : String) (rule : Rule U L) (keep? : Option String) :
    Option (Bool × Workspace U L) :=
  (space.owner? name).map fun i =>
    match space.registry.define? i rule with
    | some registry => (true, { space with registry := registry })
    | none =>
      (false, { space with kept := keep?.elim space.kept (space.kept.put · rule) })

/-- Take a handle from the forward rule of that name; none if there is no such forward rule. -/
def handle? (space : Workspace U L) (name handle : String) : Option (Workspace U L) :=
  (space.owner? name).map fun i => { space with handles := space.handles.put handle i }

/-- Copy the handle of that name under another name; none if there is no such handle. -/
def copy? (space : Workspace U L) (handle other : String) : Option (Workspace U L) :=
  (space.handles.lookup handle).map fun i =>
    { space with handles := space.handles.put other i }

def isDefined? (space : Workspace U L) (name : String) : Option Bool :=
  (space.owner? name).map space.registry.isDefined

/-- How a forward rule or a handle of that name is written. -/
def describe? (space : Workspace U L) (name : String) : Option String :=
  match space.isDefined? name with
  | some isDefined =>
    some ("Forward \x7b defined: " ++ (if isDefined then "true" else "false") ++ " \x7d")
  | none => (space.handles.lookup name).map fun _ => "ForwardRef(..)"

/-- Declare a forward rule under each name. -/
def declareAll (space : Workspace U L) (names : List String) : Workspace U L :=
  names.foldl declare space

end Workspace

end Peg
