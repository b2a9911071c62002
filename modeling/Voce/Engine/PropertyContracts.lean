import Voce.Engine.Graph
import Voce.Foundation.FiniteMap

/-! # What contract validation decides

`ValidateProperties` filters two lists, builds an index by name and leaves at the first
mismatch. Whether it succeeds is said here without these steps.
-/

namespace Voce.Engine

open List FiniteMap

namespace Property

/-- Every field that the downstream requires is produced, by the last field with its key. -/
def Provides (up down : Property) : Prop :=
  ∀ df ∈ down.fields, df.required = true →
    ∃ uf, up.fields.reverse.find? (fun f => f.key = df.key) = some uf ∧ uf.required = true ∧
      (df.type = .any ∨ uf.type = df.type)

theorem validateFields_eq_ok_iff (fields : AList fun _ : String => Field) (down : Property)
    (required : List Field) :
    down.validateFields fields required = .ok () ↔
      ∀ df ∈ required, df.required = true → ∃ uf, fields.lookup df.key = some uf ∧
        uf.required = true ∧ (df.type = .any ∨ uf.type = df.type) := by
  induction required with
  | nil => simp [validateFields]
  | cons df rest ih =>
    rw [forall_mem_cons, validateFields]
    split
    next hoptional => simp [hoptional, ih]
    next hrequired =>
      split
      next hnone => simp [hnone, hrequired]
      next uf hlookup =>
        split
        next hmismatch => simp [hlookup, hrequired, hmismatch]
        next hmatch =>
          split
          next hweak => simp [hlookup, hrequired, hweak]
          next hstrong =>
            have htype : df.type = .any ∨ uf.type = df.type := by tauto
            simp [hlookup, hrequired, hstrong, ih, htype]

end Property

theorem validateProperty_eq_ok_iff (up down : Property) :
    validateProperty up down = .ok () ↔ up.prefixName = down.prefixName ∧
      (down.name = "" ∨ up.name = down.name) ∧ up.Provides down := by
  unfold validateProperty
  split
  next hscope => simp [hscope]
  next hscope =>
    split
    next hname => simp [hname]
    next hname =>
      have hname : down.name = "" ∨ up.name = down.name := by tauto
      have hscope : up.prefixName = down.prefixName := by simpa using hscope
      rw [Property.validateFields_eq_ok_iff, and_iff_right hscope, and_iff_right hname]
      simp [Property.Provides, Property.fieldMap, lookup_foldl_insert Field.key]

namespace Accepted

theorem foldl_add (downs : List Property) (a : Accepted) : downs.foldl add a =
      ⟨(downs.filter fun d => d.name ≠ "").foldl (fun table d => table.insert d.text d) a.byName,
        a.wildcards ++ downs.filter fun d => d.name = ""⟩ := by
  induction downs generalizing a with
  | nil => simp
  | cons d rest ih =>
    rw [foldl_cons, ih]
    by_cases hname : d.name = "" <;> simp [add, hname]

/-- The checks succeed if every property that is recognized fits. -/
theorem check_eq_ok_iff (a : Accepted) (hit result : Bool) (ups : List Property) :
    a.check hit ups = .ok result ↔
      (∀ up ∈ ups, ∀ d, a.recognize up = some d → validateProperty up d = .ok ()) ∧
        (result = true ↔ hit = true ∨ ∃ up ∈ ups, ∃ d, a.recognize up = some d) := by
  induction ups generalizing hit with
  | nil => cases hit <;> cases result <;> simp [check]
  | cons up rest ih =>
    rw [check, forall_mem_cons]
    cases hd : a.recognize up with
    | none => simp [ih, hd]
    | some d =>
      cases hvalid : validateProperty up d with
      | error error => simp [hd, hvalid]
      | ok _ => simp [ih, hd, hvalid]

end Accepted

/-- The downstream property of a prefix that an upstream one has to meet: the one of its name,
or else the one without a name. -/
def Recognizes (p : String) (downs : List Property) (up d : Property) : Prop :=
  (d ∈ downs ∧ d.prefixName = p) ∧
    (d.name = up.name ∨ d.name = "" ∧ ∀ e ∈ downs, e.prefixName = p → e.name ≠ up.name)

variable {p : String} {ups downs : List Property}

theorem text_eq_text_iff {d up : Property} (hscope : d.prefixName = up.prefixName) :
    d.text = up.text ↔ d.name = up.name := by
  rw [Property.text, Property.text, hscope, String.append_right_inj]

theorem recognize_eq_some_iff (hdistinct : (downs.map fun d => (d.prefixName, d.name)).Nodup)
    {up d : Property} (hup : up.prefixName = p) :
    ((downs.filter fun d => d.prefixName = p).foldl Accepted.add ⟨∅, []⟩).recognize up = some d ↔
      Recognizes p downs up d := by
  have hunique : ∀ b ∈ downs, ∀ c ∈ downs, b.prefixName = c.prefixName → b.name = c.name →
      b = c := fun b hb c hc hscope hname =>
    inj_on_of_nodup_map hdistinct hb hc (Prod.ext hscope hname)
  rw [Accepted.foldl_add, Accepted.recognize]
  simp only [lookup_foldl_insert, AList.lookup_empty, Option.or_none, nil_append]
  generalize hnamed : find? _ _ = named
  cases named with
  | some e =>
    -- the property of the name is the one that is found
    have he := mem_of_find?_eq_some hnamed
    have htext := find?_some hnamed
    simp only [mem_reverse, mem_filter, decide_eq_true_eq] at he htext
    obtain ⟨⟨hmem, hscope⟩, -⟩ := he
    have hname := (text_eq_text_iff (hscope.trans hup.symm)).mp htext
    simp only [Option.some.injEq]
    constructor
    · rintro rfl
      exact ⟨⟨hmem, hscope⟩, .inl hname⟩
    · rintro ⟨⟨hd, hp⟩, heq | ⟨-, hnone⟩⟩
      · exact hunique e hmem d hd (hscope.trans hp.symm) (hname.trans heq.symm)
      · exact absurd hname (hnone e hmem hscope)
  | none =>
    have hnone : ∀ e ∈ downs, e.prefixName = p → e.name ≠ "" → e.name ≠ up.name := by
      intro e he hscope hname heq
      have hmiss := find?_eq_none.mp hnamed e (by simp [he, hscope, hname])
      exact hmiss (by simpa using (text_eq_text_iff (hscope.trans hup.symm)).mpr heq)
    rw [find?_eq_some_iff_of_unique]
    · simp only [Recognizes, mem_filter, decide_eq_true_eq]
      constructor
      · rintro ⟨⟨hd, hname⟩, -⟩
        refine ⟨hd, ?_⟩
        by_cases hempty : up.name = ""
        · exact .inl (hname.trans hempty.symm)
        · refine .inr ⟨hname, fun e he hscope heq => ?_⟩
          exact hnone e he hscope (fun h => hempty (heq.symm.trans h)) heq
      · rintro ⟨hd, heq | ⟨hname, -⟩⟩
        · have hname : d.name = "" := by
            by_contra hname
            exact hnone d hd.1 hd.2 hname heq
          exact ⟨⟨hd, hname⟩, hname⟩
        · exact ⟨⟨hd, hname⟩, hname⟩
    · intro hd b hb _ _
      simp only [mem_filter, decide_eq_true_eq] at hd hb
      exact hunique b hb.1.1 d hd.1.1 (hb.1.2.trans hd.1.2.symm) (hb.2.trans hd.2.symm)

/-- Some property of the source is recognized, and every one that is provides what the target
requires. -/
def Fulfilled (p : String) (ups downs : List Property) : Prop :=
  (∃ up ∈ ups, up.prefixName = p ∧ ∃ d ∈ downs, d.prefixName = p ∧
    (d.name = up.name ∨ d.name = "")) ∧
  ∀ up ∈ ups, up.prefixName = p → ∀ d, Recognizes p downs up d → up.Provides d

theorem exists_recognizes_iff (p : String) (downs : List Property) (up : Property) :
    (∃ d, Recognizes p downs up d) ↔
      ∃ d ∈ downs, d.prefixName = p ∧ (d.name = up.name ∨ d.name = "") := by
  constructor
  · rintro ⟨d, ⟨hd, hscope⟩, hname⟩
    exact ⟨d, hd, hscope, hname.imp_right And.left⟩
  · rintro ⟨d, hd, hscope, hname⟩
    by_cases hexact : ∃ e ∈ downs, e.prefixName = p ∧ e.name = up.name
    · obtain ⟨e, he, hscope, hname⟩ := hexact
      exact ⟨e, ⟨he, hscope⟩, .inl hname⟩
    · refine ⟨d, ⟨hd, hscope⟩, hname.imp_right fun hname => ⟨hname, fun e he hscope heq => ?_⟩⟩
      exact hexact ⟨e, he, hscope, heq⟩

theorem check_eq_ok_true_iff (hdistinct : (downs.map fun d => (d.prefixName, d.name)).Nodup) :
    ((downs.filter fun d => d.prefixName = p).foldl Accepted.add ⟨∅, []⟩).check false
        (ups.filter fun up => up.prefixName = p) = .ok true ↔ Fulfilled p ups downs := by
  rw [Accepted.check_eq_ok_iff, Fulfilled]
  simp only [mem_filter, decide_eq_true_eq]
  constructor
  · rintro ⟨hvalid, hhit⟩
    obtain ⟨up, ⟨hup, hscope⟩, d, hd⟩ := (hhit.mp trivial).resolve_left nofun
    refine ⟨⟨up, hup, hscope, (exists_recognizes_iff p downs up).mp ⟨d, ?_⟩⟩, ?_⟩
    · exact (recognize_eq_some_iff hdistinct hscope).mp hd
    · intro up hup hscope d hd
      have hfits := hvalid up ⟨hup, hscope⟩ d ((recognize_eq_some_iff hdistinct hscope).mpr hd)
      exact ((validateProperty_eq_ok_iff up d).mp hfits).2.2
  · rintro ⟨⟨up, hup, hscope, hknown⟩, hprovides⟩
    obtain ⟨d, hd⟩ := (exists_recognizes_iff p downs up).mpr hknown
    have hfound := (recognize_eq_some_iff hdistinct hscope).mpr hd
    refine ⟨?_, iff_of_true trivial (.inr ⟨up, ⟨hup, hscope⟩, d, hfound⟩)⟩
    rintro up ⟨hup, hscope⟩ d hd
    have hd := (recognize_eq_some_iff hdistinct hscope).mp hd
    refine (validateProperty_eq_ok_iff up d).mpr ⟨hscope.trans hd.1.2.symm, ?_, ?_⟩
    · exact hd.2.symm.imp And.left Eq.symm
    · exact hprovides up hup hscope d hd

theorem validateProperties_eq_ok_iff
    (hdistinct : (downs.map fun d => (d.prefixName, d.name)).Nodup) :
    validateProperties ups downs p = .ok () ↔
      (∀ d ∈ downs, d.prefixName ≠ p) ∨ Fulfilled p ups downs := by
  unfold validateProperties
  rw [← check_eq_ok_true_iff hdistinct]
  dsimp only
  split
  next hdowns => exact iff_of_true rfl (.inl (by simpa using hdowns))
  next hdowns =>
    rw [or_iff_right (by simpa using hdowns)]
    split
    next hups => simp [hups, Accepted.check]
    · split
      next hcheck => simp [hcheck]
      next hcheck => simp [hcheck]
      next hcheck => simp [hcheck]

/-- `ValidateProperties` succeeds if the target declares nothing of the prefix, or if what
it declares is fulfilled. The order of the lists does not matter. -/
theorem validateProperties_verdict
    (hdistinct : (downs.map fun d => (d.prefixName, d.name)).Nodup) :
    (validateProperties ups downs p = .ok () ↔
      (∀ d ∈ downs, d.prefixName ≠ p) ∨ Fulfilled p ups downs) ∧
    ∀ otherUps otherDowns, otherUps.Perm ups → otherDowns.Perm downs →
      (validateProperties otherUps otherDowns p = .ok () ↔
        validateProperties ups downs p = .ok ()) := by
  refine ⟨validateProperties_eq_ok_iff hdistinct, ?_⟩
  intro otherUps otherDowns hups hdowns
  rw [validateProperties_eq_ok_iff hdistinct,
    validateProperties_eq_ok_iff ((hdowns.map _).nodup_iff.mpr hdistinct)]
  simp only [Fulfilled, Recognizes, hups.mem_iff, hdowns.mem_iff]

/-- The last field of a key counts, and the signal is of another prefix. -/
def chatOutputs : List Property :=
  [⟨"data", "speech", [⟨"text", ⟨"pcm_16k"⟩, false⟩, ⟨"text", ⟨"string"⟩, true⟩]⟩,
    ⟨"data", "llm", [⟨"sentence", ⟨"string"⟩, true⟩]⟩, ⟨"signal", "start", []⟩]

/-- What is accepted by name has no text, which the property without a name requires. -/
def chatInputs : List Property :=
  [⟨"data", "", [⟨"text", .any, true⟩]⟩, ⟨"data", "llm", [⟨"sentence", ⟨"string"⟩, true⟩]⟩]

theorem validateProperties_verdict_chat :
    validateProperties chatOutputs chatInputs "data" = .ok () ∧
      validateProperties chatOutputs.reverse chatInputs.reverse "data" = .ok () := by
  have hverdict := @validateProperties_verdict "data" chatOutputs chatInputs (by decide)
  have hok : validateProperties chatOutputs chatInputs "data" = .ok () := by
    refine hverdict.1.mpr (.inr ⟨?_, ?_⟩)
    · simp [chatOutputs, chatInputs]
    · simp [chatOutputs, chatInputs, Recognizes, Property.Provides]
  exact ⟨hok, (hverdict.2 _ _ (reverse_perm _) (reverse_perm _)).mpr hok⟩

end Voce.Engine
