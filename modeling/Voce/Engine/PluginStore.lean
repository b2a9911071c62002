import Voce.Engine.Routing
import Voce.Foundation.WhiteSpace

/-! # Plugin resources and the plugin store

A resource holds the builders of one namespace, and the store holds the resources of
all namespaces. Neither replaces an entry that is there.
-/

namespace Voce.Engine

open AList

structure PortMetadata where
  type : EventType
  port : Int
  name : String
  description : String

def PortMetadata.validate (p : PortMetadata) : Except String Unit :=
  if p.port ≤ 0 then
    .error ("port index " ++ toString p.port ++
      " must be greater than 0 (0 is reserved for broadcast)")
  else if p.port ≥ maxPortCount then
    .error ("port index " ++ toString p.port ++ " exceeds maximum allowed port (" ++
      toString (maxPortCount - 1) ++ ")")
  else .ok ()

/-- What a resource reads of a builder. -/
class Described (Builder : Type) where
  name : Builder → String
  ports : Builder → List PortMetadata

structure PluginResource (Builder : Type) where
  ns : String
  builders : AList fun _ : String => Builder

namespace PluginResource

variable {Builder : Type} [Described Builder]

def new (ns : String) : PluginResource Builder := ⟨ns, ∅⟩

/-- The first port that is not valid decides the error. -/
def validatePorts : List PortMetadata → Except String Unit
  | [] => .ok ()
  | port :: rest =>
    match port.validate with
    | .error error => .error error
    | .ok () => validatePorts rest

def registerBuilder (r : PluginResource Builder) (builder : Builder) :
    Except String (PluginResource Builder) :=
  let name := Described.name builder
  if name = "" then .error "plugin invalid: builder name is empty"
  else
    match validatePorts (Described.ports builder) with
    | .error error => .error error
    | .ok () =>
      if (r.builders.lookup name).isSome then
        .error ("plugin duplicate: " ++ name ++ " in resource " ++ r.ns)
      else .ok { r with builders := r.builders.insert name builder }

def loadBuilder (r : PluginResource Builder) (name : String) : Option Builder :=
  r.builders.lookup name

theorem validatePorts_eq_ok {ports} :
    validatePorts ports = .ok () ↔ ∀ port ∈ ports, port.validate = .ok () := by
  induction ports with
  | nil => simp [validatePorts]
  | cons port rest ih =>
    rw [List.forall_mem_cons, ← ih, validatePorts]
    cases port.validate with
    | error error | ok checked => simp

/-- A builder whose name is free and whose ports are valid is registered. -/
theorem registerBuilder_eq_ok {r : PluginResource Builder} {builder}
    (hname : Described.name builder ≠ "")
    (hports : ∀ port ∈ Described.ports builder, port.validate = .ok ())
    (hfree : Described.name builder ∉ r.builders) :
    r.registerBuilder builder =
      .ok { r with builders := r.builders.insert (Described.name builder) builder } := by
  unfold registerBuilder
  simp only [hname, validatePorts_eq_ok.mpr hports, lookup_eq_none.mpr hfree, if_false,
    Option.isSome_none, Bool.false_eq_true]

theorem registerBuilder_ns {r registered : PluginResource Builder} {builder}
    (hregister : r.registerBuilder builder = .ok registered) : registered.ns = r.ns := by
  unfold registerBuilder at hregister
  dsimp only at hregister
  split at hregister
  · cases hregister
  · split at hregister
    · cases hregister
    · split at hregister
      · cases hregister
      · cases hregister
        rfl

end PluginResource

def localNamespace : String := "local"

/-- Nothing is left of the string once its spaces are trimmed. -/
def Blank (s : String) : Prop := ∀ c ∈ s.toList, isSpace c

instance (s : String) : Decidable (Blank s) :=
  List.decidableBAll (fun c => isSpace c = true) s.toList

/-- Why `LoadBuilder` fails, by the error that it wraps. -/
inductive LoadError where
  | invalid (detail : String)
  | notFound (detail : String)
  | ambiguous (detail : String)
  deriving DecidableEq

/-- Two results that agree up to the text of an error. -/
theorem mapError_eq_cases {Error Kind Value : Type} {kind : Error → Kind}
    {first second : Except Error Value} (heq : first.mapError kind = second.mapError kind) :
    (∃ value, first = .ok value ∧ second = .ok value) ∨
      ∃ error other, first = .error error ∧ second = .error other ∧ kind error = kind other := by
  cases first with
  | error error =>
    cases second with
    | error other => exact .inr ⟨error, other, rfl, rfl, Except.error.inj heq⟩
    | ok value => cases heq
  | ok value =>
    cases second with
    | error other => cases heq
    | ok other => exact .inl ⟨value, rfl, by rw [Except.ok.inj heq]⟩

inductive LoadErrorKind where
  | invalid
  | notFound
  | ambiguous

def LoadError.kind : LoadError → LoadErrorKind
  | .invalid _ => .invalid
  | .notFound _ => .notFound
  | .ambiguous _ => .ambiguous

def LoadError.text : LoadError → String
  | .invalid detail => "plugin invalid: " ++ detail
  | .notFound detail => "plugin not found: " ++ detail
  | .ambiguous detail => "plugin ambiguous: " ++ detail

abbrev PluginStore (Builder : Type) := AList fun _ : String => PluginResource Builder

namespace PluginStore

variable {Builder : Type}

def addResource (s : PluginStore Builder) (resource : PluginResource Builder) :
    Except String (PluginStore Builder) :=
  if resource.ns = "" then .error "plugin invalid: resource namespace is empty"
  else if (s.lookup resource.ns).isSome then
    .error ("plugin duplicate: resource " ++ resource.ns)
  else .ok (s.insert resource.ns resource)

/-- The resources that `RemoveResource` can take out. -/
def Removable (ns : String) : Prop := ¬ Blank ns ∧ ns ≠ localNamespace

instance (ns : String) : Decidable (Removable ns) := inferInstanceAs (Decidable (_ ∧ _))

def removeResource (s : PluginStore Builder) (ns : String) : PluginStore Builder :=
  if Blank ns ∨ ns = localNamespace then s else s.erase ns

/-- The only resource that has a builder of this name, among those that the loop of
`LoadBuilder` has still to visit and the one that it has found. -/
def findBuilder (s : PluginStore Builder) (name : String) (matched : Option (String × Builder)) :
    List String → Except LoadError (Option (String × Builder))
  | [] => .ok matched
  | ns :: rest =>
    match (s.lookup ns).bind fun resource => resource.loadBuilder name with
    | none => s.findBuilder name matched rest
    | some builder =>
      match matched with
      | some (first, _) =>
        .error (.ambiguous (name ++ " between resources " ++ first ++ " and " ++ ns))
      | none => s.findBuilder name (some (ns, builder)) rest

def loadBuilder (range : Graph.RangeOrder) (s : PluginStore Builder) (ns name : String) :
    Except LoadError Builder :=
  if name = "" then .error (.invalid "name is empty")
  else if ns ≠ "" then
    match s.lookup ns with
    | none => .error (.notFound ("resource " ++ ns))
    | some resource =>
      match resource.loadBuilder name with
      | none => .error (.notFound (name ++ " in resource " ++ ns))
      | some builder => .ok builder
  else
    match s.findBuilder name none (range.order s.keys) with
    | .error error => .error error
    | .ok none => .error (.notFound name)
    | .ok (some (_, builder)) => .ok builder

variable {s : PluginStore Builder} {resource : PluginResource Builder} {ns : String}

theorem addResource_of_not_mem (hns : resource.ns ≠ "") (hfree : resource.ns ∉ s) :
    s.addResource resource = .ok (s.insert resource.ns resource) := by
  unfold addResource
  simp only [hns, lookup_eq_none.mpr hfree, if_false, Option.isSome_none, Bool.false_eq_true]

/-- A namespace that is taken keeps its resource. -/
theorem exists_addResource_error (hmem : resource.ns ∈ s) :
    ∃ error, s.addResource resource = .error error := by
  have hsome : (s.lookup resource.ns).isSome := lookup_isSome.mpr hmem
  unfold addResource
  split
  · exact ⟨_, rfl⟩
  · exact ⟨_, rfl⟩

theorem not_mem_removeResource_iff (hmem : ns ∈ s) : ns ∉ s.removeResource ns ↔ Removable ns := by
  unfold removeResource Removable
  split
  next h =>
    refine iff_of_false (fun hnot => hnot hmem) ?_
    intro ⟨hblank, hlocal⟩
    exact h.elim hblank hlocal
  next h =>
    refine iff_of_true ?_ ⟨fun hblank => h (.inl hblank), fun hlocal => h (.inr hlocal)⟩
    rw [mem_erase]
    exact fun herase => herase.1 rfl

/-- The order of the loop only decides the text of an error. -/
theorem findBuilder_kind_of_perm (s : PluginStore Builder) (name : String) {keys keys'}
    (hperm : keys.Perm keys') (matched : Option (String × Builder)) :
    (s.findBuilder name matched keys).mapError LoadError.kind =
      (s.findBuilder name matched keys').mapError LoadError.kind := by
  induction hperm generalizing matched with
  | nil => rfl
  | cons ns _ ih =>
    simp only [findBuilder]
    split
    · exact ih matched
    next builder _ =>
      cases matched with
      | some found => rfl
      | none => exact ih (some (ns, builder))
  | swap first second rest =>
    simp only [findBuilder]
    cases (s.lookup first).bind fun resource => resource.loadBuilder name with
    | none => cases (s.lookup second).bind fun resource => resource.loadBuilder name <;> rfl
    | some builder =>
      cases (s.lookup second).bind fun resource => resource.loadBuilder name with
      | none => rfl
      | some other => cases matched <;> rfl
  | trans _ _ ih ih' => exact (ih matched).trans (ih' matched)

theorem loadBuilder_kind (s : PluginStore Builder) (range range' : Graph.RangeOrder)
    (ns name : String) :
    (s.loadBuilder range ns name).mapError LoadError.kind =
      (s.loadBuilder range' ns name).mapError LoadError.kind := by
  have hperm : (range.order s.keys).Perm (range'.order s.keys) :=
    (range.perm _).trans (range'.perm _).symm
  have hfind := s.findBuilder_kind_of_perm name hperm none
  unfold loadBuilder
  split
  · rfl
  · split
    · rfl
    · rcases mapError_eq_cases hfind with ⟨found, hfirst, hsecond⟩ | ⟨error, other, hfirst,
        hsecond, hkind⟩
      · rw [hfirst, hsecond]
      · rw [hfirst, hsecond]
        exact congrArg Except.error hkind

end PluginStore

end Voce.Engine
