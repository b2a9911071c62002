import Voce.Engine.Config
import Voce.Sonic

/-! # Properties over the configurations of nodes

A session may bring properties for the nodes of its workflow. They are merged into the
configurations of a copy of the stored nodes.
-/

namespace Voce

open List Option Prod

/-! ## Merging objects -/

namespace Json

variable {Atom : Type} {base overlay members : List (String × Json Atom)}

/-- `Set`: the value of a member is replaced in its place, a new member comes last. -/
def set (key : String) (value : Json Atom) : List (String × Json Atom) → List (String × Json Atom)
  | [] => [(key, value)]
  | (k, v) :: rest => if key = k then (k, value) :: rest else (k, v) :: set key value rest

/-- `Get`. -/
def find (key : String) : List (String × Json Atom) → Option (Json Atom)
  | [] => none
  | (k, v) :: rest => if key = k then some v else find key rest

mutual

/-- `DeepMergeAST` on two objects, member by member of the overlay. -/
def mergeMembers (base : List (String × Json Atom)) :
    List (String × Json Atom) → List (String × Json Atom)
  | [] => base
  | (key, node) :: rest => mergeMembers (set key (mergeMember (find key base) node) base) rest

/-- What a member of the overlay puts in place of the base's. -/
def mergeMember (found : Option (Json Atom)) : Json Atom → Json Atom
  | .object overlay =>
    match found with
    | some (.object members) => .object (mergeMembers members overlay)
    | _ => .object overlay
  | .atom value => .atom value

end

def deepMergeAST (base overlay : Json Atom) : Json Atom :=
  match base, overlay with
  | .object members, .object overlay => .object (mergeMembers members overlay)
  | _, _ => base

def get (key : String) : Json Atom → Option (Json Atom)
  | .object members => find key members
  | .atom _ => none

/-- No object has two members of one key. -/
inductive Distinct : Json Atom → Prop
  | atom (value : Atom) : Distinct (.atom value)
  | object {members : List (String × Json Atom)} (keys : (members.map fst).Nodup)
    (values : ∀ member ∈ members, Distinct member.2) : Distinct (.object members)

@[simp]
theorem distinct_atom (value : Atom) : Distinct (.atom value) := .atom value

@[simp]
theorem distinct_object_iff : Distinct (.object members) ↔
    (members.map fst).Nodup ∧ ∀ member ∈ members, Distinct member.2 := by
  constructor
  · rintro ⟨⟩
    exact ⟨‹_›, ‹_›⟩
  · exact fun ⟨hkeys, hvalues⟩ => .object hkeys hvalues

theorem find_set (key k : String) (value : Json Atom) (members : List (String × Json Atom)) :
    find k (set key value members) = if k = key then some value else find k members := by
  induction members with
  | nil => rfl
  | cons member rest ih =>
    simp only [set, find]
    split
    next heq =>
      subst heq
      simp only [find]
      split <;> rfl
    next hne =>
      simp only [find, ih]
      split
      next hk => rw [if_neg fun heq => hne (heq.symm.trans hk)]
      · rfl

theorem set_of_find {key value} (hfind : find key members = some value) :
    set key value members = members := by
  induction members with
  | nil => cases hfind
  | cons member rest ih =>
    obtain ⟨name, v⟩ := member
    simp only [set, find] at hfind ⊢
    split at hfind
    next heq => rw [if_pos heq, some.inj hfind]
    next hne => rw [if_neg hne, ih hfind]

theorem mem_keys_of_find {key value} (hfind : find key members = some value) :
    key ∈ members.map fst := by
  induction members with
  | nil => cases hfind
  | cons member rest ih =>
    simp only [find] at hfind
    split at hfind
    next heq => exact heq ▸ mem_cons_self
    · exact mem_cons_of_mem _ (ih hfind)

theorem find_of_mem (hkeys : (members.map fst).Nodup)
    {member} (hmem : member ∈ members) : find member.1 members = some member.2 := by
  induction members with
  | nil => cases hmem
  | cons first rest ih =>
    obtain ⟨hfresh, hrest⟩ := nodup_cons.mp hkeys
    rcases mem_cons.mp hmem with rfl | hmem
    · exact if_pos rfl
    · have hne : member.1 ≠ first.1 := fun heq => hfresh (heq ▸ mem_map_of_mem hmem)
      exact (if_neg hne).trans (ih hrest hmem)

theorem find_mergeMembers (hkeys : (overlay.map fst).Nodup) (base : List (String × Json Atom))
    (k : String) :
    find k (mergeMembers base overlay) =
      match find k overlay with
      | none => find k base
      | some node => some (mergeMember (find k base) node) := by
  induction overlay generalizing base with
  | nil => rfl
  | cons member rest ih =>
    obtain ⟨hfresh, hrest⟩ := nodup_cons.mp hkeys
    simp only [mergeMembers, ih hrest, find_set, find]
    by_cases hk : k = member.1
    · subst hk
      have hnone : find member.1 rest = none :=
        eq_none_iff_forall_ne_some.mpr fun _ hfind => hfresh (mem_keys_of_find hfind)
      simp only [hnone, if_true]
    · simp only [if_neg hk]

/-- An overlay whose members are merged already changes nothing. -/
theorem mergeMembers_of_absorbed
    (habsorbed : ∀ member ∈ overlay, ∃ value, find member.1 base = some value ∧
      mergeMember (some value) member.2 = value) : mergeMembers base overlay = base := by
  induction overlay with
  | nil => rw [mergeMembers]
  | cons member rest ih =>
    obtain ⟨value, hlookup, hmerged⟩ := habsorbed member mem_cons_self
    rw [mergeMembers, hlookup, hmerged, set_of_find hlookup]
    exact ih fun other hother => habsorbed other (mem_cons_of_mem _ hother)

theorem mergeMember_eq_right {found : Option (Json Atom)} {node}
    (hother : ∀ x y, found = some (.object x) → node ≠ .object y) :
    mergeMember found node = node := by
  rcases node with _ | overlay
  · rfl
  rcases found with _ | _ | members
  · rfl
  · rfl
  · exact absurd rfl (hother members overlay rfl)

/-- A member that was merged once stays as it is. -/
theorem Distinct.mergeMember_idem {node : Json Atom} (hnode : node.Distinct)
    (found : Option (Json Atom)) :
    mergeMember (some (mergeMember found node)) node = mergeMember found node := by
  induction hnode generalizing found with
  | atom value => simp [mergeMember]
  | @object overlay hkeys _ ih =>
    have hstable : ∀ base, (∀ member ∈ overlay, ∃ found,
        find member.1 base = some (mergeMember found member.2)) →
        mergeMembers base overlay = base := by
      intro base hbase
      refine mergeMembers_of_absorbed fun member hmember => ?_
      obtain ⟨found, hfound⟩ := hbase member hmember
      exact ⟨_, hfound, ih member hmember found⟩
    have hself : mergeMembers overlay overlay = overlay := hstable overlay fun member hmember =>
      ⟨none, (find_of_mem hkeys hmember).trans
        (congrArg some (mergeMember_eq_right fun _ _ => (by rintro ⟨⟩)).symm)⟩
    rcases found with _ | _ | base
    · exact congrArg Json.object hself
    · exact congrArg Json.object hself
    · refine congrArg Json.object (hstable _ fun member hmember => ⟨find member.1 base, ?_⟩)
      rw [find_mergeMembers hkeys, find_of_mem hkeys hmember]

theorem Distinct.deepMergeAST_idem {o : Json Atom} (ho : o.Distinct) (b : Json Atom) :
    (b.deepMergeAST o).deepMergeAST o = b.deepMergeAST o := by
  rcases b with _ | members
  · rfl
  rcases o with _ | overlay
  · rfl
  · exact ho.mergeMember_idem (some (.object members))

end Json

namespace Engine

/-! ## Merging configurations -/

section Overlay

variable {Atom : Type} (sonic : Sonic (Json Atom) (List UInt8))

def deepMergeJSON (base overlay : List UInt8) : Except String (List UInt8) :=
  if base = [] then .ok overlay
  else if overlay = [] then .ok base
  else do
    let baseNode ← sonic.unmarshal base
    let overlayNode ← sonic.unmarshal overlay
    sonic.marshal (baseNode.deepMergeAST overlayNode)

variable (properties : String → Option (List UInt8))

/-- What the loop assigns to the `Config` of a node. A failed merge is skipped. -/
def newConfig (nd : ConfiguredNode) : Option (List UInt8) :=
  match properties nd.name with
  | none => none
  | some nodeProps => (deepMergeJSON sonic nd.config nodeProps).toOption

/-- One round of the loop over the copied nodes. -/
def mergeNode (array : Nat) (heap : List (List ConfiguredNode)) (i : Nat) :
    List (List ConfiguredNode) :=
  match (heap[array]?.bind (·[i]?)).bind (newConfig sonic properties) with
  | none => heap
  | some config => heap.modify array (·.modify i ({ · with config := config }))

variable (heap : List (List ConfiguredNode))

/-- The arrays of nodes are in a heap, and a configuration has the index of its own. The other
fields are copied. -/
def cloneAndMergeConfig (nodes : Nat) : List (List ConfiguredNode) × Nat :=
  let copied := heap[nodes]?.getD []
  ((List.range copied.length).foldl (mergeNode sonic properties heap.length) (heap ++ [copied]),
    heap.length)

/-- What a session has in place of a stored node. -/
def overlaid (nd : ConfiguredNode) : ConfiguredNode :=
  { nd with config := (newConfig sonic properties nd).getD nd.config }

theorem modify_length {α : Type} (xs ys : List α) (a : α) (f : α → α) :
    (xs ++ a :: ys).modify xs.length f = xs ++ f a :: ys := by
  induction xs with
  | nil => rfl
  | cons x xs ih => simp [ih]

theorem mergeNode_append (done rest : List ConfiguredNode) (nd : ConfiguredNode) :
    mergeNode sonic properties heap.length (heap ++ [done ++ nd :: rest]) done.length =
      heap ++ [done ++ overlaid sonic properties nd :: rest] := by
  have hround : (heap ++ [done ++ nd :: rest])[heap.length]? = some (done ++ nd :: rest) := by simp
  have hnode : (done ++ nd :: rest)[done.length]? = some nd := by simp
  simp only [mergeNode, overlaid, hround, hnode, bind_some]
  cases newConfig sonic properties nd with
  | none => rfl
  | some config => simp only [modify_length, getD_some]

theorem foldl_mergeNode (done rest : List ConfiguredNode) :
    (range' done.length rest.length).foldl (mergeNode sonic properties heap.length)
        (heap ++ [done ++ rest]) =
      heap ++ [done ++ rest.map (overlaid sonic properties)] := by
  induction rest generalizing done with
  | nil => rfl
  | cons nd rest ih =>
    have hnext := ih (done ++ [overlaid sonic properties nd])
    rw [length_cons, range'_succ, foldl_cons, mergeNode_append]
    simpa using hnext

/-- The copy has the overlaid nodes, and the stored arrays are what they were. -/
theorem cloneAndMergeConfig_eq {heap : List (List ConfiguredNode)} {nodes stored}
    (hstored : heap[nodes]? = some stored) :
    cloneAndMergeConfig sonic properties heap nodes =
      (heap ++ [stored.map (overlaid sonic properties)], heap.length) := by
  simp only [cloneAndMergeConfig, hstored, getD_some, range_eq_range']
  exact congrArg (·, heap.length) (foldl_mergeNode sonic properties heap [] stored)

end Overlay

/-- Merging is recursive on objects and keeps everything else of the base, the same overlay
changes nothing twice, and the nodes of a session are the stored ones but for the configurations
of those that have properties. -/
theorem overlay_recursive {Atom : Type} (sonic : Sonic (Json Atom) (List UInt8)) {base overlay}
    {b o : Json Atom} (hbase : sonic.unmarshal base = .ok b)
    (hoverlay : sonic.unmarshal overlay = .ok o) (hnonempty : base ≠ [] ∧ overlay ≠ [])
    (hdistinct : b.Distinct ∧ o.Distinct) :
    deepMergeJSON sonic base overlay = sonic.marshal (b.deepMergeAST o) ∧
    (∀ merged, merged ≠ [] → sonic.unmarshal merged = .ok (b.deepMergeAST o) →
      deepMergeJSON sonic merged overlay = sonic.marshal (b.deepMergeAST o)) ∧
    (∀ v, b = .atom v ∨ o = .atom v → b.deepMergeAST o = b) ∧
    (∀ members others, b = .object members → o = .object others →
      (∃ both, b.deepMergeAST o = .object both) ∧
      ∀ k, (∀ x y, b.get k = some (.object x) → o.get k = some (.object y) →
          (b.deepMergeAST o).get k = some ((Json.object x).deepMergeAST (.object y))) ∧
        (∀ v, o.get k = some v → (∀ x y, b.get k = some (.object x) → v ≠ .object y) →
          (b.deepMergeAST o).get k = some v) ∧
        (o.get k = none → (b.deepMergeAST o).get k = b.get k)) ∧
    ∀ properties (heap : List (List ConfiguredNode)) nodes stored, heap[nodes]? = some stored →
      cloneAndMergeConfig sonic properties heap nodes = (heap ++ [stored.map fun nd => { nd with
        config := match properties nd.name with
          | none => nd.config
          | some nodeProps =>
            (deepMergeJSON sonic nd.config nodeProps).toOption.getD nd.config }], heap.length) := by
  have hmerge : ∀ text value, text ≠ [] → sonic.unmarshal text = .ok value →
      deepMergeJSON sonic text overlay = sonic.marshal (value.deepMergeAST o) := by
    intro text value htext hvalue
    simp only [deepMergeJSON, if_neg htext, if_neg hnonempty.2, hvalue, hoverlay]
    rfl
  refine ⟨hmerge base b hnonempty.1 hbase, ?_, ?_, ?_, ?_⟩
  · intro merged hmerged hvalue
    rw [hmerge merged _ hmerged hvalue, hdistinct.2.deepMergeAST_idem]
  · rintro v (rfl | rfl)
    · rfl
    · cases b <;> rfl
  · rintro members others rfl rfl
    have hkeys : (others.map fst).Nodup := (Json.distinct_object_iff.mp hdistinct.2).1
    refine ⟨⟨_, rfl⟩, fun k => ?_⟩
    simp only [Json.deepMergeAST, Json.get, Json.find_mergeMembers hkeys]
    refine ⟨fun x y hx hy => ?_, fun v hv hother => ?_, fun hnone => ?_⟩
    · rw [hx, hy]
      rfl
    · rw [hv]
      exact congrArg some (Json.mergeMember_eq_right hother)
    · rw [hnone]
  · intro properties heap nodes stored hstored
    rw [cloneAndMergeConfig_eq sonic properties hstored]
    refine congrArg (fun copied => (heap ++ [copied], heap.length)) (map_congr_left ?_)
    intro nd _
    simp only [overlaid, newConfig]
    cases properties nd.name <;> rfl

/-- A configuration with a nested object, and an overlay with two. -/
def storedConfig : Json String :=
  .object [("voice", .object [("speed", .atom "1"),
      ("style", .object [("tone", .atom "\"dry\"")])]), ("model", .atom "\"tts\"")]

def nodeProps : Json String :=
  .object [("voice", .object [("style", .object [("pace", .atom "[2,3]")]),
      ("speed", .atom "null")]), ("lang", .atom "\"en\"")]

def mergedConfig : Json String :=
  .object [("voice", .object [("speed", .atom "null"), ("style", .object [("tone", .atom "\"dry\""),
    ("pace", .atom "[2,3]")])]), ("model", .atom "\"tts\""), ("lang", .atom "\"en\"")]

def readConfigs : Sonic (Json String) (List UInt8) :=
  .reading [storedConfig, nodeProps, mergedConfig]

theorem overlay_recursive_nested :
    deepMergeJSON readConfigs storedConfig.utf8 nodeProps.utf8 = .ok mergedConfig.utf8 ∧
      deepMergeJSON readConfigs mergedConfig.utf8 nodeProps.utf8 = .ok mergedConfig.utf8 := by
  have hstored : readConfigs.unmarshal storedConfig.utf8 = .ok storedConfig :=
    Sonic.unmarshal_reading (i := 0) rfl (by decide +kernel)
  have hprops : readConfigs.unmarshal nodeProps.utf8 = .ok nodeProps :=
    Sonic.unmarshal_reading (i := 1) rfl (by decide +kernel)
  have hmerged : readConfigs.unmarshal mergedConfig.utf8 = .ok mergedConfig :=
    Sonic.unmarshal_reading (i := 2) rfl (by decide +kernel)
  obtain ⟨honce, htwice, -⟩ := overlay_recursive readConfigs hstored hprops
    ⟨by decide +kernel, by decide +kernel⟩ ⟨by simp [storedConfig], by simp [nodeProps]⟩
  exact ⟨honce, htwice mergedConfig.utf8 (by decide +kernel) hmerged⟩

end Engine

end Voce
