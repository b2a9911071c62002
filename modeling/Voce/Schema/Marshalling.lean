import Mathlib.Data.List.Forall2
import Voce.Schema.ObjectValues
import Voce.Sonic

/-! # Properties as JSON

`MarshalJSON` hands sonic the last value of each key, bytes as a text that is JSON already.
Bytes given to `Set` and the texts that sonic made of other values are stored alike.
-/

namespace Voce.Schema

open List Face Prod

variable {Datum Atom : Type}

/-- Properties with nothing set. -/
def noProperties : Face Datum := .made .payload "" [] .nil

/-- The map that `MarshalJSON` builds. Its bytes are of the type `json.RawMessage`. -/
abbrev Members (Datum : Type) := List (Entry Datum (List UInt8))

def Face.marshalJSON (marshal : Members Datum → Except String (List UInt8)) (o : Face Datum) :
    Except String (List UInt8) :=
  if o.entries.values = [] then .ok (Json.object []).utf8
  else marshal (lastEntries o.entries.values)

/-! ## What sonic has to satisfy -/

/-- The codec at syntax trees, what `Marshal` makes of a map of properties, and the data that it
can write: all but some numbers and times. -/
structure PropertyCodec (Datum Atom : Type) extends Sonic (Json Atom) (List UInt8) where
  marshalMembers : Members Datum → Except String (List UInt8)
  writes : Datum → Prop

namespace PropertyCodec

variable (codec : PropertyCodec Datum Atom)

def IsJson (text : List UInt8) : Prop := ∃ value, codec.unmarshal text = .ok value

/-- The text is an object with exactly these keys. -/
def IsObject (text : List UInt8) (keys : List String) : Prop :=
  ∃ members, codec.unmarshal text = .ok (.object members) ∧
    ∀ key, key ∈ members.map fst ↔ key ∈ keys

def Writes : Value Datum (List UInt8) → Prop
  | .nil => True
  | .datum d => codec.writes d
  | .bytes bs => codec.IsJson bs

/-- A map is marshalled, to an object with its keys, exactly if each of its values is. -/
structure Marshals (members : Members Datum) : Prop where
  of_writes : (∀ e ∈ members, codec.Writes e.val) →
    ∃ text, codec.marshalMembers members = .ok text
  writes : ∀ text, codec.marshalMembers members = .ok text → ∀ e ∈ members, codec.Writes e.val
  object : ∀ text, codec.marshalMembers members = .ok text →
    codec.IsObject text (members.map Entry.key)

/-- A value that can be set and sent. What sonic made of another value is JSON. -/
def Fits : Input Datum → Prop
  | .datum d => codec.writes d
  | .bytes bs => codec.IsJson bs
  | .other _ => True

end PropertyCodec

/-! ## The last value of each key -/

variable {entries : Members Datum}

/-- The loop of `MarshalJSON` leaves for each key what `Get` finds. -/
theorem mem_lastEntries {key v} :
    ⟨key, v⟩ ∈ lastEntries entries ↔
      (entries.reverse.find? (·.key = key)).map Entry.val = some v := by
  induction entries generalizing v with
  | nil => simp [lastEntries]
  | cons e entries ih =>
    have hcons : lastEntries (e :: entries) = if (lastEntries entries).any (·.key = e.key) then
        lastEntries entries else lastEntries entries ++ [e] := by
      rw [lastEntries, reverse_cons, foldl_append]
      rfl
    rw [hcons, reverse_cons, find?_append]
    by_cases hkey : e.key = key
    · subst hkey
      cases hfind : entries.reverse.find? (·.key = e.key) with
      | none =>
        have hnew : ∀ v, ⟨e.key, v⟩ ∉ lastEntries entries := by simp [ih, hfind]
        have hany : ¬ (lastEntries entries).any (·.key = e.key) := by
          simp only [any_eq_true, decide_eq_true_eq]
          rintro ⟨⟨_, v⟩, hmem, rfl⟩
          exact hnew v hmem
        rw [if_neg hany, mem_append, or_iff_right (hnew v), mem_singleton]
        cases e
        simp [eq_comm]
      | some found =>
        have hold : ⟨e.key, found.val⟩ ∈ lastEntries entries := ih.mpr (by rw [hfind]; rfl)
        rw [if_pos (any_eq_true.mpr ⟨_, hold, by simp⟩), ih, hfind]
        rfl
    · have hne : ⟨key, v⟩ ≠ e := fun heq => hkey (heq ▸ rfl)
      have hlast : find? (·.key = key) [e] = none := by simp [hkey]
      rw [hlast, Option.or_none, ← ih]
      split
      · rfl
      · simp [hne]

/-- The last value that is set for a key. -/
def lastSet (sets : List (String × Input Datum)) (key : String) : Option (Input Datum) :=
  (sets.reverse.find? (·.1 = key)).map snd

variable {o p : Face Datum} {grow : Nat → Nat} {wrap : String → PropertyError → PropertyError}
  {sets : List (String × Input Datum)}

/-- An entry is what `snapshot` made of a value. -/
def Snapshot (set : String × Input Datum) (e : Entry Datum (List UInt8)) : Prop :=
  e.key = set.1 ∧ set.2.stored = .ok e.val

theorem entries_of_setAll (hsets : o.setAll grow id wrap sets = (p, none)) :
    ∃ added, p.entries.values = o.entries.values ++ added ∧ Forall₂ Snapshot sets added := by
  induction sets generalizing o with
  | nil =>
    cases hsets
    exact ⟨[], by simp, .nil⟩
  | cons pair rest ih =>
    rw [setAll, Face.set] at hsets
    split at hsets
    · cases hsets
    next hset =>
      split at hset
      · cases hset
      · split at hset <;> cases hset
        next val hstored =>
          obtain ⟨added, hvalues, hsnapshots⟩ := ih hsets
          refine ⟨⟨pair.1, val⟩ :: added, ?_, .cons ⟨rfl, hstored⟩ hsnapshots⟩
          simpa [ArrayHeap.Contents.append] using hvalues

theorem find?_of_snapshots (h : Forall₂ Snapshot sets entries) (key : String) :
    sets.find? (·.1 = key) = none ∧ entries.find? (·.key = key) = none ∨
      ∃ set e, sets.find? (·.1 = key) = some set ∧ entries.find? (·.key = key) = some e ∧
        Snapshot set e := by
  induction h with
  | nil => exact .inl ⟨rfl, rfl⟩
  | @cons set e sets entries hsnapshot _ ih =>
    by_cases hkey : set.1 = key
    · exact .inr ⟨set, e, by simp [hkey], by simp [hsnapshot.1, hkey], hsnapshot⟩
    · simpa [hkey, hsnapshot.1] using ih

/-- `Get` finds what `snapshot` made of the last value. -/
theorem get_of_snapshots (h : Forall₂ Snapshot sets o.entries.values) (key : String) :
    lastSet sets key = none ∧ o.get key = none ∨
      ∃ input v, lastSet sets key = some input ∧ o.get key = some v ∧ input.stored = .ok v := by
  rw [lastSet, Face.get]
  rcases find?_of_snapshots (forall₂_reverse_iff.mpr h) key with
    ⟨hset, hentry⟩ | ⟨set, e, hset, hentry, -, hstored⟩
  · exact .inl ⟨by rw [hset]; rfl, by rw [hentry]; rfl⟩
  · exact .inr ⟨set.2, e.val, by rw [hset]; rfl, by rw [hentry]; rfl, hstored⟩

theorem mem_of_lastSet {key input} (hlast : lastSet sets key = some input) :
    ∃ key, (key, input) ∈ sets := by
  obtain ⟨set, hfind, rfl⟩ := Option.map_eq_some_iff.mp hlast
  exact ⟨set.1, mem_reverse.mp (mem_of_find?_eq_some hfind)⟩

theorem keys_of_snapshots (h : Forall₂ Snapshot sets entries) :
    entries.map Entry.key = sets.map fst := by
  induction h with
  | nil => rfl
  | cons hsnapshot _ ih => rw [map_cons, map_cons, hsnapshot.1, ih]

theorem mem_keys_lastEntries {key} :
    key ∈ (lastEntries entries).map Entry.key ↔ key ∈ entries.map Entry.key := by
  have hfound : key ∈ entries.map Entry.key ↔ (entries.reverse.find? (·.key = key)).isSome := by
    simp
  rw [hfound, mem_map]
  constructor
  · rintro ⟨e, hmem, rfl⟩
    obtain ⟨found, hfind, -⟩ := Option.map_eq_some_iff.mp (mem_lastEntries.mp hmem)
    exact Option.isSome_of_eq_some hfind
  · intro hsome
    obtain ⟨found, hfind⟩ := Option.isSome_iff_exists.mp hsome
    exact ⟨⟨key, found.val⟩, mem_lastEntries.mpr (by rw [hfind]; rfl), rfl⟩

namespace PropertyCodec

variable {codec : PropertyCodec Datum Atom}

theorem writes_iff_fits {input : Input Datum} {v} (hstored : input.stored = .ok v)
    (hjson : ∀ text, input = .other (.ok text) → codec.IsJson text) :
    codec.Writes v ↔ codec.Fits input := by
  cases input with
  | datum d | bytes bs =>
    cases hstored
    rfl
  | other json =>
    cases json with
    | error message => cases hstored
    | ok text =>
      cases hstored
      exact iff_of_true (hjson text rfl) trivial

theorem writes_lastEntries_iff (hsnapshots : Forall₂ Snapshot sets o.entries.values)
    (hother : ∀ key text, (key, .other (.ok text)) ∈ sets → codec.IsJson text) :
    (∀ e ∈ lastEntries o.entries.values, codec.Writes e.val) ↔
      ∀ key input, lastSet sets key = some input → codec.Fits input := by
  have hfits : ∀ {key input v}, lastSet sets key = some input → input.stored = .ok v →
      (codec.Writes v ↔ codec.Fits input) := by
    intro key input v hlast hstored
    obtain ⟨key, hmem⟩ := mem_of_lastSet hlast
    exact writes_iff_fits hstored fun text heq => hother key text (heq ▸ hmem)
  constructor
  · intro hall key input hlast
    rcases get_of_snapshots hsnapshots key with ⟨hnone, -⟩ | ⟨input', v, hlast', hget, hstored⟩
    · rw [hnone] at hlast
      cases hlast
    · obtain rfl : input' = input := Option.some.inj (hlast'.symm.trans hlast)
      exact (hfits hlast hstored).mp (hall ⟨key, v⟩ (mem_lastEntries.mpr hget))
  · intro hall e he
    have hentry : o.get e.key = some e.val := mem_lastEntries.mp he
    rcases get_of_snapshots hsnapshots e.key with ⟨-, hnone⟩ | ⟨input, v, hlast, hget, hstored⟩
    · rw [hnone] at hentry
      cases hentry
    · obtain rfl : v = e.val := Option.some.inj (hget.symm.trans hentry)
      exact (hfits hlast hstored).mpr (hall e.key input hlast)

/-- After any `Set` calls the properties are marshalled, to an object with the keys that were set,
if and only if the last value of every key fits: bytes are a JSON document, and a number or a time
has a JSON text. -/
theorem marshalJSON_iff (grow wrap) (sets : List (String × Input Datum))
    (hsets : noProperties.setAll grow id wrap sets = (o, none))
    (hempty : codec.unmarshal (Json.object []).utf8 = .ok (.object []))
    (hother : ∀ key text, (key, .other (.ok text)) ∈ sets → codec.IsJson text)
    (hmembers : codec.Marshals (lastEntries o.entries.values)) :
    (∃ text, o.marshalJSON codec.marshalMembers = .ok text ∧
        codec.IsObject text (sets.map fst)) ↔
      ∀ key input, lastSet sets key = some input → codec.Fits input := by
  obtain ⟨added, hvalues, hsnapshots⟩ := entries_of_setAll hsets
  obtain rfl : o.entries.values = added := hvalues
  have hkeys := keys_of_snapshots hsnapshots
  rw [← writes_lastEntries_iff hsnapshots hother, Face.marshalJSON]
  split
  next hnone =>
    rw [hnone] at hkeys ⊢
    refine iff_of_true ⟨_, rfl, [], hempty, fun key => ?_⟩ nofun
    rw [← hkeys]
    rfl
  next =>
    constructor
    · rintro ⟨text, hmarshal, -⟩
      exact hmembers.writes text hmarshal
    · intro hall
      obtain ⟨text, hmarshal⟩ := hmembers.of_writes hall
      obtain ⟨object, hobject, hsame⟩ := hmembers.object text hmarshal
      refine ⟨text, hmarshal, object, hobject, fun key => ?_⟩
      rw [hsame, mem_keys_lastEntries, hkeys]

/-- Data are texts without characters to be escaped, and the documents are those that are read.
What is not one of them is refused, as sonic refuses what a `RawMessage` gives it. -/
def printing (documents : List (Json String)) : PropertyCodec String String where
  toSonic := Sonic.reading documents
  marshalMembers members := do
    let written ← members.mapM fun e => do
      let value ← match e.val with
        | .nil => .ok "null".toUTF8.toList
        | .datum d => .ok ("\"" ++ d ++ "\"").toUTF8.toList
        | .bytes bs => ((Sonic.reading documents).unmarshal bs).map fun _ => bs
      return ("\"" ++ e.key ++ "\":").toUTF8.toList ++ value
    return "\x7b".toUTF8.toList ++ ",".toUTF8.toList.intercalate written ++
      "\x7d".toUTF8.toList
  writes _ := True

/-- The bytes of the first image are no document. Another image, in JSON, is set after it. -/
def photoSets : List (String × Input String) :=
  [("image", .bytes [0xff, 0xd8]), ("text", .datum "cat"),
    ("image", .bytes (Json.atom "[1,2]").utf8),
    ("tags", .other (.ok (Json.object [("pet", .atom "true")]).utf8))]

def photo : Face String := (noProperties.setAll id id (fun _ err => err) photoSets).1

def photoJson : Json String :=
  .object [("tags", .object [("pet", .atom "true")]), ("image", .atom "[1,2]"),
    ("text", .atom "\"cat\"")]

def photoCodec : PropertyCodec String String :=
  printing [.object [], .atom "[1,2]", .object [("pet", .atom "true")], photoJson]

theorem marshalJSON_iff_photo :
    photo.marshalJSON photoCodec.marshalMembers = .ok photoJson.utf8 ∧
      ∃ text, photo.marshalJSON photoCodec.marshalMembers = .ok text ∧
        photoCodec.IsObject text ["image", "text", "image", "tags"] := by
  have himage : photoCodec.IsJson (Json.atom "[1,2]").utf8 :=
    ⟨_, Sonic.unmarshal_reading (i := 1) rfl (by decide +kernel)⟩
  have htags : photoCodec.IsJson (Json.object [("pet", .atom "true")]).utf8 :=
    ⟨_, Sonic.unmarshal_reading (i := 2) rfl (by decide +kernel)⟩
  have hphoto : photoCodec.marshalMembers (lastEntries photo.entries.values) =
      .ok photoJson.utf8 := by decide +kernel
  have hempty : photoCodec.unmarshal (Json.object []).utf8 = .ok (.object []) :=
    Sonic.unmarshal_reading (i := 0) rfl (by decide +kernel)
  refine ⟨hphoto, (marshalJSON_iff (o := photo) id (fun _ err => err) photoSets rfl hempty ?_
    ⟨fun _ => ⟨_, hphoto⟩, ?_, ?_⟩).mpr ?_⟩
  · intro key text hmem
    obtain ⟨-, rfl⟩ : key = "tags" ∧ text = (Json.object [("pet", .atom "true")]).utf8 := by
      simpa [photoSets] using hmem
    exact htags
  · intro text _ e he
    have hentries : lastEntries photo.entries.values =
        [⟨"tags", .bytes (Json.object [("pet", .atom "true")]).utf8⟩,
          ⟨"image", .bytes (Json.atom "[1,2]").utf8⟩, ⟨"text", .datum "cat"⟩] := rfl
    simp only [hentries, mem_cons, not_mem_nil, or_false] at he
    rcases he with rfl | rfl | rfl
    exacts [htags, himage, trivial]
  · intro text htext
    obtain rfl : photoJson.utf8 = text := Except.ok.inj (hphoto.symm.trans htext)
    exact ⟨_, Sonic.unmarshal_reading (i := 3) rfl (by decide +kernel), fun _ => .rfl⟩
  · intro key input hlast
    have hcases : input = .other (.ok (Json.object [("pet", .atom "true")]).utf8) ∨
        input = .bytes (Json.atom "[1,2]").utf8 ∨ input = .datum "cat" := by
      simp only [lastSet, photoSets, reverse_cons, reverse_nil, nil_append, cons_append,
        find?_cons] at hlast
      repeat' split at hlast
      all_goals simp_all
    rcases hcases with rfl | rfl | rfl
    exacts [trivial, himage, trivial]

/-- The image is dropped, and with it the whole event. -/
theorem image_not_marshalled :
    ∃ o, noProperties.setAll id id (fun _ err => err) [("text", .datum "cat"),
        ("image", .bytes [0xff, 0xd8])] = (o, none) ∧
      o.marshalJSON photoCodec.marshalMembers = .error "unknown text" :=
  ⟨_, rfl, by decide +kernel⟩

end PropertyCodec

end Voce.Schema
