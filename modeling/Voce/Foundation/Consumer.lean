import Mathlib.Algebra.GroupWithZero.Nat
import Voce.Foundation.Mailbox
import Voce.Foundation.PrioritySelect

/-! # Consumers of several mailboxes

A consumer takes items from its mailboxes by a two-stage selection, in which the items of one
mailbox are urgent. When it has wound down it drains what is left. Senders lose an item only if
it is of a sort that may be lost, or if they were cancelled.
-/

namespace Voce

open Function List Mailbox

structure Consumer (Key Item : Type) where
  boxes : Key → Mailbox Item
  /-- It has left its loop, and drains its mailboxes at most. -/
  wound : Prop
  /-- It is in the second stage of its selection. -/
  committed : Bool
  live : Prop
  cancelled : Bool

namespace Consumer

variable {Key Item : Type} [DecidableEq Key] {urgent : Key} {sort : Key → Item → Prop}
  [∀ key, DecidablePred (sort key)] {v w : Consumer Key Item}

inductive Step (urgent : Key) (sort : Key → Item → Prop) (v : Consumer Key Item) :
    Consumer Key Item → Prop where
  | stay (wound : Prop) (committed : Bool) (live : Prop) (cancelled : Bool)
      (hwound : v.wound → wound) (hcommitted : committed = true → v.committed = true)
      (hlive : (v.wound → ¬ v.live) → wound → ¬ live)
      (hcancelled : v.cancelled = true → cancelled = true) :
      Step urgent sort v ⟨v.boxes, wound, committed, live, cancelled⟩
  | commit (wound : Prop) (hbefore : ¬ v.wound) (hafter : ¬ wound)
      (hnone : (v.boxes urgent).items = []) :
      Step urgent sort v { v with wound := wound, committed := true }
  | receive (key : Key) (item : Item) (box : Mailbox Item) (wound : Prop) (hbefore : ¬ v.wound)
      (hafter : ¬ wound) (hkey : key = urgent ∨ v.committed = true)
      (hreceive : (v.boxes key).receive? = some (item, box)) :
      Step urgent sort v
        { v with boxes := update v.boxes key box, wound := wound, committed := false }
  | send (key : Key) (item : Item) (box : Mailbox Item)
      (hsend : (v.boxes key).send? item = some box) :
      Step urgent sort v { v with boxes := update v.boxes key box }
  | lose (key : Key) (item : Item) (hlost : v.cancelled = true ∨ ¬ sort key item) :
      Step urgent sort v
        { v with boxes := update v.boxes key ((v.boxes key).lose item) }
  | drain (key : Key) (box : Mailbox Item) (hwound : v.wound)
      (hdrain : (v.boxes key).drain? = some box) :
      Step urgent sort v { v with boxes := update v.boxes key box }

/-- What holds of the mailboxes between any two steps. -/
structure Delivers (sort : Key → Item → Prop) [∀ key, DecidablePred (sort key)]
    (v : Consumer Key Item) : Prop where
  wound : v.wound → ¬ v.live
  undrained : ¬ v.wound → ∀ key, (v.boxes key).Undrained
  keeps : v.cancelled = false → ∀ key, (v.boxes key).Keeps (sort key)

theorem Delivers.step (hv : v.Delivers sort) (hstep : Step urgent sort v w) : w.Delivers sort := by
  have hundrained {key : Key} {box : Mailbox Item} (h : ¬ v.wound) (hbox : box.Undrained) :=
    (forall_update_iff v.boxes fun _ m => m.Undrained).mpr
      ⟨hbox, fun other (_ : other ≠ key) => hv.undrained h other⟩
  have hkeeps {key : Key} {box : Mailbox Item} (h : v.cancelled = false)
      (hbox : box.Keeps (sort key)) :=
    (forall_update_iff v.boxes fun key m => m.Keeps (sort key)).mpr
      ⟨hbox, fun other (_ : other ≠ key) => hv.keeps h other⟩
  cases hstep with
  | stay wound _ live cancelled hwound _ hlive hcancelled =>
    refine ⟨hlive hv.wound, fun h => hv.undrained (mt hwound h), fun h => hv.keeps ?_⟩
    rw [← Bool.not_eq_true] at h ⊢
    exact mt hcancelled h
  | commit wound hbefore hafter =>
    exact ⟨fun h => absurd h hafter, fun _ => hv.undrained hbefore, hv.keeps⟩
  | receive key item box wound hbefore hafter _ hreceive =>
    exact ⟨fun h => absurd h hafter,
      fun _ => hundrained hbefore ((hv.undrained hbefore key).receive hreceive),
      fun h => hkeeps h ((hv.keeps h key).receive hreceive)⟩
  | send key item box hsend =>
    exact ⟨hv.wound, fun h => hundrained h ((hv.undrained h key).send hsend),
      fun h => hkeeps h ((hv.keeps h key).send hsend)⟩
  | lose key item hlost =>
    refine ⟨hv.wound, fun h => hundrained h (hv.undrained h key), fun h => hkeeps h ?_⟩
    rw [h] at hlost
    exact (hv.keeps h key).lose (hlost.resolve_left Bool.false_ne_true)
  | drain key box hwound hdrain =>
    exact ⟨hv.wound, absurd hwound, fun h => hkeeps h ((hv.keeps h key).drain hdrain)⟩

/-- The consumer as a two-stage selection. -/
def selection (urgent : Key) (others : List Key) (v : Consumer Key Item) : PrioritySelect where
  placed := (v.boxes urgent).placed.length
  handled := (v.boxes urgent).handled.length
  started := (others.map fun key => (v.boxes key).handled.length).sum
  committed := v.committed

theorem sum_map_update {f : Key → Nat} {key : Key} {n : Nat} {others : List Key}
    (hnodup : others.Nodup) (hkey : key ∈ others) :
    (others.map (update f key (f key + n))).sum = (others.map f).sum + n := by
  induction others with
  | nil => cases hkey
  | cons other rest ih =>
    obtain ⟨hother, hrest⟩ := nodup_cons.mp hnodup
    rw [map_cons, map_cons, sum_cons, sum_cons]
    obtain rfl | hmem := mem_cons.mp hkey
    · rw [update_self, map_congr_left fun k hk =>
        update_of_ne (ne_of_mem_of_not_mem hk hother) _ f]
      omega
    · rw [ih hrest hmem, update_of_ne (ne_of_mem_of_not_mem hmem hother).symm]
      omega

variable {others : List Key}

/-- Items are placed, lost or drained in one mailbox. -/
theorem selection_update {key box} (hplaced : (v.boxes key).placed.length ≤ box.placed.length)
    (hhandled : box.handled = (v.boxes key).handled) :
    PrioritySelect.Step (v.selection urgent others)
      ({ v with boxes := update v.boxes key box }.selection urgent others) := by
  have hsame (other : Key) :
      (update v.boxes key box other).handled = (v.boxes other).handled :=
    (forall_update_iff v.boxes fun other m => m.handled = (v.boxes other).handled).mpr
      ⟨hhandled, fun _ _ => rfl⟩ other
  have hmore := (forall_update_iff v.boxes fun other m =>
    (v.boxes other).placed.length ≤ m.placed.length).mpr ⟨hplaced, fun _ _ => Nat.le_refl _⟩ urgent
  have heq : { v with boxes := update v.boxes key box }.selection urgent others =
      { v.selection urgent others with
        placed := (update v.boxes key box urgent).placed.length
        committed := v.committed } := by
    simp only [selection, hsame]
  rw [heq]
  exact .stay _ _ hmore id

theorem selection_step (hv : v.Delivers sort) (hnodup : others.Nodup) (hurgent : urgent ∉ others)
    (hothers : ∀ key, key ≠ urgent → key ∈ others) (hstep : Step urgent sort v w) :
    PrioritySelect.Step (v.selection urgent others) (w.selection urgent others) := by
  cases hstep with
  | stay wound committed live cancelled _ hcommitted => exact .stay _ _ (Nat.le_refl _) hcommitted
  | commit wound hbefore _ hnone =>
    refine .commit (Nat.le_of_eq (congrArg length ?_))
    rw [placed_eq_taken hnone, hv.undrained hbefore urgent]
  | receive key item box wound _ _ hkey hreceive =>
    obtain ⟨-, hplaced, -, hhandled, -⟩ := receive?_eq_some hreceive
    have hlength : (fun other => (update v.boxes key box other).handled.length) =
        update (fun other => (v.boxes other).handled.length) key
          ((v.boxes key).handled.length + 1) := by
      funext other
      by_cases heq : other = key
      · subst heq
        simp [hhandled]
      · simp [heq]
    by_cases heq : key = urgent
    · subst heq
      have hafter : (others.map fun other => (update v.boxes key box other).handled.length) =
          others.map fun other => (v.boxes other).handled.length :=
        map_congr_left fun other hother => by
          rw [update_of_ne (ne_of_mem_of_not_mem hother hurgent)]
      simp only [selection, hafter, update_self, hplaced, hhandled, length_append]
      exact .takeUrgent
    · have hcommitted := hkey.resolve_left heq
      have hsum := sum_map_update (f := fun other => (v.boxes other).handled.length) (n := 1)
        hnodup (hothers key heq)
      simp only [selection, hlength, hsum, update_of_ne (Ne.symm heq)]
      exact .takeOther hcommitted
  | send key item box hsend =>
    obtain ⟨-, hplaced, -, hhandled, -⟩ := send?_eq_some hsend
    exact selection_update (by simp [hplaced]) hhandled
  | lose key item => exact selection_update (Nat.le_refl _) rfl
  | drain key box _ hdrain =>
    obtain ⟨-, hplaced, hhandled, -⟩ := drain?_eq_some hdrain
    exact selection_update (Nat.le_of_eq (congrArg _ hplaced.symm)) hhandled

end Consumer

end Voce
