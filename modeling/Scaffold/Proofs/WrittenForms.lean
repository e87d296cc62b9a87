import Mathlib.Data.List.Nodup
import Scaffold.Codec

/-!
# Written forms

A value is read back from its written form. Forms that are written otherwise
(entries in another order, entries that nobody asks for, an optional one left
out, a name as an object) are read as well, and writing what was read gives
the form that is read the same and written the same from then on.
-/

namespace Scaffold

namespace Json

variable {entries entries' extra : List (String × Json)} {key : String}

theorem filter_of_notMem (h : key ∉ entries.map Prod.fst) : entries.filter (·.1 = key) = [] := by
  refine List.filter_eq_nil_iff.mpr fun entry he => ?_
  simpa using fun heq => h (List.mem_map.mpr ⟨entry, he, heq⟩)

theorem value?_of_notMem (h : key ∉ entries.map Prod.fst) : value? entries key = some none := by
  rw [value?, filter_of_notMem h]

theorem value?_of_mem {entry : String × Json} (hd : (entries.map Prod.fst).Nodup)
    (h : entry ∈ entries) : value? entries entry.1 = some (some entry.2) := by
  obtain ⟨front, back, rfl⟩ := List.append_of_mem h
  rw [List.map_append, List.map_cons, List.nodup_middle, List.nodup_cons, List.mem_append,
    not_or] at hd
  obtain ⟨⟨hfront, hback⟩, -⟩ := hd
  rw [value?, List.filter_append, filter_of_notMem hfront, List.filter_cons_of_pos (by simp),
    filter_of_notMem hback]
  rfl

theorem value?_cons_of_ne {entry : String × Json} (h : entry.1 ≠ key) :
    value? (entry :: entries) key = value? entries key := by
  rw [value?, List.filter_cons_of_neg (by simpa using h), value?]

theorem value?_cons_self {value : Json} (h : key ∉ entries.map Prod.fst) :
    value? ((key, value) :: entries) key = some (some value) := by
  rw [value?, List.filter_cons_of_pos (by simp), filter_of_notMem h]

/-- The order of the entries does not matter. -/
theorem value?_perm (h : entries.Perm entries') (key : String) :
    value? entries key = value? entries' key := by
  have hperm := h.filter (·.1 = key)
  unfold value?
  generalize entries.filter (·.1 = key) = xs, entries'.filter (·.1 = key) = ys at hperm
  match xs with
  | [] => rw [hperm.nil_eq]
  | [x] => rw [List.singleton_perm.mp hperm]
  | _ :: _ :: _ =>
    match ys, hperm.length_eq with
    | _ :: _ :: _, _ => rfl

theorem value?_append (h : key ∉ extra.map Prod.fst) :
    value? (extra ++ entries) key = value? entries key := by
  rw [value?, value?, List.filter_append, filter_of_notMem h, List.nil_append]

end Json

namespace Codec

-- ---------------------------------------------------------------------------
-- Reading back
-- ---------------------------------------------------------------------------

/-- Every value is read back from its written form. -/
class Faithful (α : Type) [Codec α] : Prop where
  decode_encode (a : α) : decode? (encode a) = some a

open Faithful

variable {α : Type} [Codec α]

@[simp] theorem part?_encode [Faithful α] (a : α) : part? (some (encode a)) = some a :=
  decode_encode a

@[simp] theorem optional?_encode [Faithful α] (a : α) : optional? (some (encode a)) = some a :=
  decode_encode a

omit [Codec α] in
theorem named?_name {values : List α} {name : α → String} {a : α}
    (h : values.find? (name · = name a) = some a) :
    named? values name (.string (name a)) = some a := h

/-- The parts of an object are read by their names, in whatever order they are asked for. -/
theorem parts?_of_nodup {entries : List (String × Json)} (hd : (entries.map Prod.fst).Nodup) :
    parts? (entries.map Prod.fst) (.object entries) =
      some (entries.map fun entry => some entry.2) := by
  have hall (front : List (String × Json)) (h : ∀ entry ∈ front, entry ∈ entries) :
      (front.map Prod.fst).mapM (Json.value? entries) =
        some (front.map fun entry => some entry.2) := by
    induction front with
    | nil => rfl
    | cons entry front ih =>
      obtain ⟨he, hfront⟩ := List.forall_mem_cons.mp h
      rw [List.map_cons, List.mapM_cons, Json.value?_of_mem hd he, ih hfront]
      rfl
  exact hall entries fun _ => id

instance : Faithful String := ⟨fun _ => rfl⟩

instance : Faithful Bool := ⟨fun _ => rfl⟩

instance : Faithful Path := ⟨fun _ => rfl⟩

instance : Faithful (Option Path) := ⟨by rintro (_ | p) <;> rfl⟩

instance [Faithful α] : Faithful (List α) where
  decode_encode as := by
    change (as.map encode).mapM decode? = some as
    induction as with
    | nil => rfl
    | cons a as ih => simp [List.mapM_cons, decode_encode, ih]

instance : Faithful Language := ⟨by rintro (_ | _) <;> rfl⟩

instance : Faithful Kind where
  decode_encode k := named?_name (by cases k <;> decide)

instance : Faithful Status where
  decode_encode s := named?_name (by cases s <;> decide)

instance : Faithful Field where
  decode_encode f := by
    have h : parts? ["name", "type_text"] (encode f) =
        some [some (encode f.name), some (encode f.typeText)] := parts?_of_nodup (by simp)
    simp [decode?, h]

instance : Faithful Entity where
  decode_encode e := by
    have h : parts? ["name", "qualified_name", "fields", "language"] (encode e) =
        some [some (encode e.name), some (encode e.qualifiedName), some (encode e.fields),
          some (encode e.language)] := parts?_of_nodup (by simp)
    simp [decode?, h]

instance : Faithful SourceRoots where
  decode_encode r := by
    have h : parts? ["roots"] (encode r) = some [some (encode r.roots)] :=
      parts?_of_nodup (by simp)
    simp [decode?, h]

instance : Faithful Context where
  decode_encode c := by
    have h : parts? ["base_package", "base_directory"] (encode c) =
        some [some (encode c.basePackage), some (encode c.baseDirectory)] :=
      parts?_of_nodup (by simp)
    simp [decode?, h]

instance : Faithful Artifact where
  decode_encode a := by
    have h : parts? ["kind", "package", "relative_path", "file_name", "content"] (encode a) =
        some [some (encode a.kind), some (encode a.package), some (encode a.relativePath),
          some (encode a.fileName), some (encode a.content)] := parts?_of_nodup (by simp)
    simp [decode?, h]

instance : Faithful Outcome where
  decode_encode o := by
    have h : parts? ["kind", "path", "status"] (encode o) =
        some [some (encode o.kind), some (encode o.path), some (encode o.status)] :=
      parts?_of_nodup (by simp)
    simp [decode?, h]

instance : Faithful Report where
  decode_encode r := by
    have h : parts? ["class", "base_package", "base_directory", "dry_run", "artifacts"] (encode r) =
        some [some (encode r.entity), some (encode r.basePackage), some (encode r.baseDirectory),
          some (encode r.dryRun), some (encode r.outcomes)] := parts?_of_nodup (by simp)
    simp [decode?, h]

instance : Faithful Message where
  decode_encode m := by cases m <;> rfl

-- ---------------------------------------------------------------------------
-- Other forms
-- ---------------------------------------------------------------------------

/-- The written form of what a form is read as. -/
def rewritten? (α : Type) [Codec α] (j : Json) : Option Json :=
  (decode? j : Option α).map encode

/-- Writing and reading settle at once: a value is read back as it was, and whatever is read is
written as a form that is read the same and that is left as it is when it is read and written. -/
structure Settles (α : Type) [Codec α] : Prop where
  read_back (a : α) : decode? (encode a) = some a
  same_value {j written : Json} : rewritten? α j = some written →
    (decode? written : Option α) = decode? j
  fixed {j written : Json} : rewritten? α j = some written → rewritten? α written = some written

/-- Objects are read by their entries under these keys: entries in another order and entries under
other keys change nothing. -/
structure ReadsKeys (α : Type) [Codec α] (keys : List String) : Prop where
  order {entries entries' : List (String × Json)} : entries.Perm entries' →
    (decode? (.object entries) : Option α) = decode? (.object entries')
  unknown {entries extra : List (String × Json)} : (∀ key ∈ keys, key ∉ extra.map Prod.fst) →
    (decode? (.object (extra ++ entries)) : Option α) = decode? (.object entries)

/-- An entry that may be left out counts as null. -/
def MayLack (α : Type) [Codec α] (key : String) : Prop :=
  ∀ entries, key ∉ entries.map Prod.fst →
    (decode? (.object ((key, .null) :: entries)) : Option α) = decode? (.object entries)

/-- A name is also read from an object that maps it to null. -/
def ReadsNames (α : Type) [Codec α] : Prop :=
  ∀ name, (decode? (.object [(name, .null)]) : Option α) = decode? (.string name)

theorem settles [Faithful α] : Settles α where
  read_back := decode_encode
  same_value {j written} h := by
    obtain ⟨a, ha, rfl⟩ := Option.map_eq_some_iff.mp h
    rw [decode_encode, ha]
  fixed {j written} h := by
    obtain ⟨a, ha, rfl⟩ := Option.map_eq_some_iff.mp h
    rw [rewritten?, decode_encode]
    rfl

theorem parts?_congr {keys : List String} {entries entries' : List (String × Json)}
    (h : ∀ key ∈ keys, Json.value? entries key = Json.value? entries' key) :
    parts? keys (.object entries) = parts? keys (.object entries') := by
  have hmapM : keys.mapM (Json.value? entries) = keys.mapM (Json.value? entries') := by
    induction keys with
    | nil => rfl
    | cons key keys ih =>
      obtain ⟨hkey, hkeys⟩ := List.forall_mem_cons.mp h
      rw [List.mapM_cons, List.mapM_cons, hkey, ih hkeys]
  exact hmapM

theorem ReadsKeys.of_get {keys : List String}
    (h : ∀ entries entries', (∀ key ∈ keys, Json.value? entries key = Json.value? entries' key) →
      (decode? (.object entries) : Option α) = decode? (.object entries')) :
    ReadsKeys α keys where
  order hperm := h _ _ fun key _ => Json.value?_perm hperm key
  unknown hextra := h _ _ fun key hkey => Json.value?_append (hextra key hkey)

theorem messageOfKind?_congr {entries entries' : List (String × Json)} (kind : String)
    (h : ∀ key ∈ ["class_name", "reason"], Json.value? entries key = Json.value? entries' key) :
    messageOfKind? kind (.object entries) = messageOfKind? kind (.object entries') := by
  have hparts : ∀ key ∈ ["class_name", "reason"],
      parts? [key] (.object entries) = parts? [key] (.object entries') := fun key hkey =>
    parts?_congr (List.forall_mem_singleton.mpr (h key hkey))
  simp only [messageOfKind?, hparts "class_name" (by simp), hparts "reason" (by simp)]
  rfl

/-- Each kind of value that is exchanged settles, in whatever way it is written. -/
theorem written_forms_settle :
    (Settles Report ∧ Settles Entity ∧ Settles Field ∧ Settles Context ∧ Settles Artifact ∧
      Settles Outcome ∧ Settles SourceRoots ∧ Settles Message) ∧
    (ReadsKeys Report ["class", "base_package", "base_directory", "dry_run", "artifacts"] ∧
      ReadsKeys Entity ["name", "qualified_name", "fields", "language"] ∧
      ReadsKeys Field ["name", "type_text"] ∧
      ReadsKeys Context ["base_package", "base_directory"] ∧
      ReadsKeys Artifact ["kind", "package", "relative_path", "file_name", "content"] ∧
      ReadsKeys Outcome ["kind", "path", "status"] ∧
      ReadsKeys SourceRoots ["roots"] ∧
      ReadsKeys Message ["kind", "class_name", "reason"]) ∧
    (MayLack Report "base_directory" ∧ MayLack Context "base_directory") ∧
    (ReadsNames Language ∧ ReadsNames Kind ∧ ReadsNames Status) := by
  refine ⟨⟨settles, settles, settles, settles, settles, settles, settles, settles⟩,
    ⟨?_, ?_, ?_, ?_, ?_, ?_, ?_, ?_⟩, ⟨fun entries h => ?_, fun entries h => ?_⟩,
    fun _ => rfl, fun _ => rfl, fun _ => rfl⟩
  iterate 7 exact .of_get fun _ _ h => by simp only [decode?, parts?_congr h]
  · refine .of_get fun entries entries' h => ?_
    simp only [decode?, h "kind" (by simp)]
    have hread (kind : String) := messageOfKind?_congr kind fun key hkey => h key (by simp_all)
    simp only [hread]
  · cases hclass : Json.value? entries "class" <;>
      cases hpackage : Json.value? entries "base_package" <;>
      cases hdry : Json.value? entries "dry_run" <;>
      cases houtcomes : Json.value? entries "artifacts" <;>
      simp [decode?, parts?, Json.value?_cons_of_ne, Json.value?_cons_self h,
        Json.value?_of_notMem h, optional?, hclass, hpackage, hdry, houtcomes]
  · cases hpackage : Json.value? entries "base_package" <;>
      simp [decode?, parts?, Json.value?_cons_of_ne, Json.value?_cons_self h,
        Json.value?_of_notMem h, optional?, hpackage]

/-- Entries in another order, one that nobody asks for and a name as an object. -/
example : rewritten? Outcome
    (.object [("status", .object [("planned", .null)]), ("note", .bool true),
      ("path", .string "a//b"), ("kind", .string "dto")]) =
    some (.object [("kind", .string "dto"), ("path", .string "a//b"),
      ("status", .string "planned")]) := rfl

end Codec

end Scaffold
