import Voce.Foundation.Transducer
import Mathlib.Data.List.Perm.Basic
import Mathlib.Logic.Function.Basic

/-! # A map in shards

`pkg/syncx/sharded_map.go`, with one call after the other. A Go map is the list of its
entries, in no particular order. Keys are compared as the language compares them: not
every key equals itself, and equal keys need not look the same. Floating-point numbers
have both, values that are not a number and zeros of either sign.
-/

namespace Voce.Syncx

open List Transducer Function

/-- The constraint `comparable`. -/
class Comparable (Key : Type) extends BEq Key where
  symm {a b : Key} : a == b → b == a

abbrev Entries (Key Value : Type) := List (Key × Value)

structure ShardedMap (Key Value : Type) where
  count : Nat
  positive : 0 < count
  shards : Nat → Entries Key Value
  hash : Key → UInt64

variable {Key Value : Type}

/-- The FNV-1a hash of what `fmt.Sprint` prints. -/
def defaultHash (sprint : Key → List UInt8) (key : Key) : UInt64 :=
  (sprint key).foldl (fun hash byte => (hash ^^^ byte.toUInt64) * 1099511628211)
    14695981039346656037

def newShardedMap (sprint : Key → List UInt8) (shardCount : Int)
    (hash : Option (Key → UInt64)) : ShardedMap Key Value where
  count := if shardCount ≤ 0 then 1 else shardCount.toNat
  positive := by split <;> omega
  shards _ := []
  hash := hash.getD (defaultHash sprint)

namespace ShardedMap

def shard (m : ShardedMap Key Value) (key : Key) : Nat :=
  if m.count = 1 then 0 else (m.hash key).toNat % m.count

theorem shard_lt (m : ShardedMap Key Value) (key : Key) : m.shard key < m.count := by
  have hpositive := m.positive
  rw [shard]
  split
  · exact hpositive
  · exact Nat.mod_lt _ hpositive

section Range

variable {State : Type} (fn : State → Key × Value → State × Bool)

/-- A call of `fn`. If it returns false, that is the end of `Range`. -/
def visit (state : State) (item : Key × Value) : Except State State :=
  if (fn state item).2 then .ok (fn state item).1 else .error (fn state item).1

/-- `Range`: what its calls of `fn` do to a state. A snapshot has the entries of a shard in
the order of the iteration. -/
def range (m : ShardedMap Key Value) (snapshot : Nat → Entries Key Value) (state : State) :
    Except State State :=
  (List.range m.count).foldlM (fun state i => (snapshot i).foldlM (visit fn) state) state

/-- Going from shard to shard is going through the snapshots as one. -/
theorem range_eq (m : ShardedMap Key Value) (snapshot : Nat → Entries Key Value) (state : State) :
    m.range fn snapshot state =
      ((List.range m.count).map snapshot).flatten.foldlM (visit fn) state := by
  unfold range
  induction List.range m.count generalizing state with
  | nil => rfl
  | cons i rest ih => simp [ih]

end Range

end ShardedMap

/-- A call. The value and the flag that the function of `Update` is given, and those it
returns, are an optional value. -/
inductive Op (Key Value : Type) where
  | store (key : Key) (value : Value)
  | load (key : Key)
  | delete (key : Key)
  | update (key : Key) (fn : Option Value → Option Value)

def Op.key : Op Key Value → Key
  | .store key _ | .load key | .delete key | .update key _ => key

inductive Reply (Value : Type) where
  | loaded (value : Option Value)
  | updated (given : Option Value) (result : Bool)

/-- What a call does to the entry of its key. -/
inductive Change (Value : Type) where
  | keep
  | delete
  | store (value : Value)

/-- A call, with the value that its key has. -/
def Op.apply : Op Key Value → Option Value → Change Value × List (Reply Value)
  | .store _ value, _ => (.store value, [])
  | .load _, value => (.keep, [.loaded value])
  | .delete _, _ => (.delete, [])
  | .update _ fn, value =>
    match fn value with
    | none => (if value.isSome then .delete else .keep, [.updated value value.isSome])
    | some next => (.store next, [.updated value true])

variable [Comparable Key]

/-! ## One map -/

namespace Entries

def get (entries : Entries Key Value) (key : Key) : Option Value :=
  (entries.find? (·.1 == key)).map Prod.snd

def change (entries : Entries Key Value) (key : Key) : Change Value → Entries Key Value
  | .keep => entries
  | .delete => entries.filter (!·.1 == key)
  | .store value => (key, value) :: entries.filter (!·.1 == key)

def apply (entries : Entries Key Value) (op : Op Key Value) :
    Entries Key Value × List (Reply Value) :=
  let answer := op.apply (entries.get op.key)
  (entries.change op.key answer.1, answer.2)

/-- No key has two entries. -/
def Distinct (entries : Entries Key Value) : Prop :=
  entries.Pairwise fun a b => ¬ a.1 == b.1

variable {entries : Entries Key Value} {key : Key}

theorem Distinct.change (h : entries.Distinct) (c : Change Value) :
    (entries.change key c).Distinct := by
  cases c with
  | keep => exact h
  | delete => exact h.filter _
  | store value =>
    refine pairwise_cons.mpr ⟨?_, h.filter _⟩
    intro item hitem hkey
    have hne := (mem_filter.mp hitem).2
    simp [Comparable.symm hkey] at hne

variable {p : Key → Bool} (hp : ∀ a, a == key → p a = p key)
include hp

theorem get_filter (hkey : p key = true) : get (entries.filter (p ·.1)) key = entries.get key := by
  rw [get, find?_filter, get]
  congr 2
  funext item
  by_cases h : item.1 == key
  · simp [h, hp _ h, hkey]
  · simp [h]

/-- Of the entries that `p` selects, a change touches those of its own key only. -/
theorem change_filter (c : Change Value) : (entries.change key c).filter (p ·.1) =
    if p key then change (entries.filter (p ·.1)) key c else entries.filter (p ·.1) := by
  have hdelete : (entries.filter (!·.1 == key)).filter (p ·.1) =
      if p key then (entries.filter (p ·.1)).filter (!·.1 == key) else entries.filter (p ·.1) := by
    split
    · exact filter_comm ..
    next hkey =>
      rw [filter_filter]
      congr 1
      funext item
      by_cases h : item.1 == key
      · simp [hp _ h, hkey]
      · simp [h]
  cases c with
  | keep => exact (ite_self _).symm
  | delete => exact hdelete
  | store value =>
    rw [change, filter_cons, hdelete]
    split <;> rfl

end Entries

/-! ## Refinement of one map -/

namespace ShardedMap

/-- `Store`, `Load`, `Delete` and `Update`, each on the map of the shard of its key. -/
def apply (m : ShardedMap Key Value) (op : Op Key Value) :
    ShardedMap Key Value × List (Reply Value) :=
  let answer := (m.shards (m.shard op.key)).apply op
  ({ m with shards := update m.shards (m.shard op.key) answer.1 }, answer.2)

/-- The map stands for one map, `whole`: each shard has the entries that belong there. -/
structure Splits (m : ShardedMap Key Value) (whole : Entries Key Value) : Prop where
  shards : ∀ i, m.shards i = whole.filter (m.shard ·.1 == i)
  distinct : whole.Distinct
  equal : ∀ a b : Key, a == b → m.shard a = m.shard b

variable {m : ShardedMap Key Value} {whole : Entries Key Value}

theorem Splits.apply (hm : m.Splits whole) (op : Op Key Value) :
    (m.apply op).1.Splits (whole.apply op).1 ∧ (m.apply op).2 = (whole.apply op).2 := by
  have hp (i : Nat) : ∀ a, a == op.key → (m.shard a == i) = (m.shard op.key == i) := by
    intro a ha
    rw [hm.equal a op.key ha]
  have hget : (m.shards (m.shard op.key)).get op.key = whole.get op.key := by
    rw [hm.shards]
    exact Entries.get_filter (hp _) (beq_self_eq_true _)
  simp only [ShardedMap.apply, Entries.apply, hget, and_true]
  refine ⟨fun i => ?_, hm.distinct.change _, hm.equal⟩
  refine .trans ?_ (Entries.change_filter (hp i) _).symm
  by_cases hi : i = m.shard op.key
  · simp [hi, hm.shards]
  · simp [hi, hm.shards, Ne.symm hi]

theorem Splits.run (hm : m.Splits whole) (ops : List (Op Key Value)) :
    (Transducer.run ShardedMap.apply m ops).1.Splits (Transducer.run Entries.apply whole ops).1 ∧
      (Transducer.run ShardedMap.apply m ops).2 = (Transducer.run Entries.apply whole ops).2 := by
  induction ops generalizing m whole with
  | nil => exact ⟨hm, rfl⟩
  | cons op ops ih =>
    obtain ⟨hnext, hreply⟩ := hm.apply op
    obtain ⟨hafter, hreplies⟩ := ih hnext
    exact ⟨hafter, congrArg₂ (· ++ ·) hreply hreplies⟩

/-- The snapshots of all the shards have the entries of `whole` between them. -/
theorem Splits.perm (hm : m.Splits whole) {snapshot : Nat → Entries Key Value}
    (horder : ∀ i, (snapshot i).Perm (m.shards i)) :
    ((List.range m.count).map snapshot).flatten.Perm whole := by
  have hcount (n : Nat) : ((List.range n).map snapshot).flatten.Perm
      (whole.filter (m.shard ·.1 < n)) := by
    induction n with
    | zero => simp
    | succ n ih =>
      have hlast := (horder n).trans (.of_eq (hm.shards n))
      rw [range_succ, map_append, flatten_append, map_singleton, flatten_singleton]
      refine (ih.append hlast).trans (.trans ?_ (filter_append_perm (m.shard ·.1 < n) _))
      rw [filter_filter, filter_filter]
      refine .of_eq (congrArg₂ (· ++ ·) ?_ ?_) <;> congr 1 <;> funext item <;> grind
  refine (hcount m.count).trans (.of_eq (filter_eq_self.mpr ?_))
  exact fun item _ => decide_eq_true (m.shard_lt item.1)

/-- Whatever the calls, their results are those of one map, a key is only in the shard that
its hash selects, and `Range` visits the entries of the one map, in some order. -/
def RefinesMap (m : ShardedMap Key Value) : Prop :=
  ∀ ops : List (Op Key Value), (run apply m ops).2 = (run Entries.apply [] ops).2 ∧
    (∀ i, ∀ item ∈ (run apply m ops).1.shards i, (run apply m ops).1.shard item.1 = i) ∧
    ∀ snapshot : Nat → Entries Key Value,
      (∀ i, (snapshot i).Perm ((run apply m ops).1.shards i)) →
      ∃ items : Entries Key Value, items.Perm (run Entries.apply [] ops).1 ∧ items.Distinct ∧
        ∀ (State : Type) (fn : State → Key × Value → State × Bool) (state : State),
          (run apply m ops).1.range fn snapshot state = items.foldlM (visit fn) state

/-- The shards are one map if and only if keys that are equal go to the same shard. -/
theorem refinesMap_iff [Inhabited Value] (sprint : Key → List UInt8) (shardCount : Int)
    (hash : Option (Key → UInt64)) :
    (newShardedMap sprint shardCount hash : ShardedMap Key Value).RefinesMap ↔
      ∀ a b : Key, a == b → (newShardedMap sprint shardCount hash : ShardedMap Key Value).shard a =
        (newShardedMap sprint shardCount hash : ShardedMap Key Value).shard b := by
  constructor
  · intro hall a b hab
    by_contra hne
    -- A load of `b` after a store of `a` tells the shards from one map.
    have hreply := (hall [.store a default, .load b]).1
    have hmiss := update_of_ne (Ne.symm hne) [(a, (default : Value))] fun _ => []
    have hnone := congrArg (fun entries : Entries Key Value => [Reply.loaded (entries.get b)]) hmiss
    have hsome : [Reply.loaded none] = [.loaded (Entries.get [(a, default)] b)] :=
      hnone.symm.trans hreply
    simp [Entries.get, hab] at hsome
  · intro hequal ops
    have hnew : Splits (newShardedMap sprint shardCount hash) [] := ⟨fun _ => rfl, .nil, hequal⟩
    obtain ⟨hafter, hreplies⟩ := hnew.run ops
    refine ⟨hreplies, ?_, ?_⟩
    · intro i item hitem
      rw [hafter.shards] at hitem
      exact eq_of_beq (mem_filter.mp hitem).2
    · intro snapshot horder
      have hperm := hafter.perm horder
      refine ⟨_, hperm, ?_, fun State fn => range_eq fn _ snapshot⟩
      exact hperm.symm.pairwise hafter.distinct fun hne heq => hne (Comparable.symm heq)

/-- The two zeros of the floating-point numbers, which are equal. -/
inductive Zero where
  | positive
  | negative

instance : Comparable Zero where
  beq _ _ := true
  symm _ := rfl

/-- `fmt.Sprint` prints `0` and `-0`. -/
def Zero.sprint : Zero → List UInt8
  | positive => [48]
  | negative => [45, 48]

/-- One zero is stored, the other one loaded. -/
theorem zeros_apart :
    (run apply (newShardedMap Zero.sprint 2 none) [.store .positive 1, .load .negative]).2 =
      [.loaded none] ∧
    (run Entries.apply [] [Op.store Zero.positive 1, .load .negative]).2 = [.loaded (some 1)] :=
  ⟨rfl, rfl⟩

end ShardedMap

end Voce.Syncx
